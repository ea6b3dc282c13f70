import LeadPulse.Dedup.Scan
import LeadPulse.Lib.Groups
import Mathlib.Algebra.Order.Field.Basic
import Mathlib.Data.Rat.Floor
import Mathlib.Tactic.Linarith

/-!
# The conversion funnel

`conversion_funnel` of `api/v1/analytics.py`, and `_get_funnel` and `_get_conversions` of
`api/v1/dashboard.py`. All of them start from the number of companies in each status; the first
and the last add up the statuses from a stage on. `count_conversionFunnel` says what comes out,
and `getConversions_eq` that the two endpoints agree on it. Percentages are rationals rounded to
one digit.
-/

namespace LeadPulse
namespace Funnel

open Dedup Groups

variable {companies : List Company} {i j : ℕ}

/-- `_FUNNEL_STAGES`, the same in both modules. -/
def funnelStages : List CompanyStatus := [.discovered, .enriched, .monitoring, .qualified, .pushed]

/-- `SELECT status, count(*) ... WHERE status != 'archived' GROUP BY status`, as the dictionary
`counts`. -/
def statusCounts (companies : List Company) : List (CompanyStatus × ℕ) :=
  tally Company.status (companies.filter fun c => c.status ≠ .archived)

/-- `counts.get(stage, 0)` -/
def countOf (counts : List (CompanyStatus × ℕ)) (stage : CompanyStatus) : ℕ :=
  (counts.lookup stage).getD 0

/-- `sum(counts.get(s, 0) for s in stages)` -/
def sumOf (counts : List (CompanyStatus × ℕ)) (stages : List CompanyStatus) : ℕ :=
  (stages.map (countOf counts)).sum

/-- `round(part / whole * 100, 1)` -/
def percent (part whole : ℕ) : ℚ := roundTenth ((part : ℚ) / whole * 100)

structure FunnelStage where
  stage : CompanyStatus
  count : ℕ
  percentage : ℚ
deriving DecidableEq

structure ConversionFunnelResponse where
  stages : List FunnelStage
  total : ℕ
deriving DecidableEq

/-- `conversion_funnel` -/
def conversionFunnel (companies : List Company) : ConversionFunnelResponse :=
  let counts := statusCounts companies
  let total := (counts.map Prod.snd).sum
  { stages := funnelStages.zipIdx.map fun (stage, i) =>
      let reached := sumOf counts (funnelStages.drop i)
      { stage := stage
        count := reached
        percentage := if 0 < total then percent reached total else 0 }
    total := total }

/-- `_get_funnel` -/
def getFunnel (companies : List Company) : List (CompanyStatus × ℕ) :=
  funnelStages.map fun stage => (stage, countOf (statusCounts companies) stage)

structure ConversionMetrics where
  discoveryToEnrichment : Option ℚ
  enrichmentToQualified : Option ℚ
  qualifiedToPushed : Option ℚ
deriving DecidableEq

/-- `_rate` -/
def rate (numerator denominator : ℕ) : Option ℚ :=
  if 0 < denominator then some (percent numerator denominator) else none

/-- `_get_conversions` -/
def getConversions (companies : List Company) : ConversionMetrics :=
  let counts := statusCounts companies
  let discovered := sumOf counts funnelStages
  let enriched := sumOf counts (funnelStages.drop 1)
  let monitoringPlus := sumOf counts (funnelStages.drop 2)
  let qualified := sumOf counts (funnelStages.drop 3)
  let pushed := countOf counts .pushed
  { discoveryToEnrichment := rate enriched discovered
    enrichmentToQualified := rate monitoringPlus enriched
    qualifiedToPushed := rate pushed qualified }

/-! ## What is counted -/

/-- How many stages of the funnel a company has reached. -/
def rank : CompanyStatus → ℕ
  | .archived => 0
  | .discovered => 1
  | .enriched => 2
  | .monitoring => 3
  | .qualified => 4
  | .pushed => 5

/-- The number of companies that have reached the stage of the number `i`. -/
def reached (companies : List Company) (i : ℕ) : ℕ := companies.countP fun c => i < rank c.status

theorem mem_drop_funnelStages (s : CompanyStatus) (hi : i < 5) :
    s ∈ funnelStages.drop i ↔ i < rank s := by
  have hall : ∀ i < 5, s ∈ funnelStages.drop i ↔ i < rank s := by
    cases s <;> decide
  exact hall i hi

theorem nodup_funnelStages : funnelStages.Nodup := by decide

theorem rank_pos_iff (s : CompanyStatus) : 0 < rank s ↔ s ≠ .archived := by
  cases s <;> decide

theorem sumOf_statusCounts (companies : List Company) (hi : i < 5) :
    sumOf (statusCounts companies) (funnelStages.drop i) = reached companies i := by
  have hnodup : (funnelStages.drop i).Nodup :=
    nodup_funnelStages.sublist (List.drop_sublist i funnelStages)
  refine (sum_lookup_tally Company.status _ hnodup).trans ?_
  rw [List.countP_filter]
  refine List.countP_congr fun c _ => ?_
  have hmem := mem_drop_funnelStages c.status hi
  have hpos := rank_pos_iff c.status
  simp only [Bool.and_eq_true, decide_eq_true_eq, hmem]
  constructor
  · exact And.left
  · exact fun h => ⟨h, hpos.mp (Nat.zero_lt_of_lt h)⟩

theorem countOf_pushed (companies : List Company) :
    countOf (statusCounts companies) .pushed = reached companies 4 := by
  rw [← sumOf_statusCounts companies (by decide)]
  exact (Nat.add_zero _).symm

theorem total_conversionFunnel (companies : List Company) :
    (conversionFunnel companies).total = reached companies 0 := by
  refine (sum_tally Company.status _).trans ?_
  rw [← List.countP_eq_length_filter]
  refine List.countP_congr fun c _ => ?_
  rw [decide_eq_true_eq, decide_eq_true_eq]
  exact (rank_pos_iff c.status).symm

theorem reached_antitone (h : i ≤ j) : reached companies j ≤ reached companies i := by
  refine List.countP_mono_left fun c _ hc => ?_
  rw [decide_eq_true_eq] at hc ⊢
  exact h.trans_lt hc

/-- The stages of the answer, with their numbers. -/
theorem count_conversionFunnel (companies : List Company) :
    (conversionFunnel companies).stages.map FunnelStage.count =
      (List.range 5).map (reached companies) := by
  have hstages : (conversionFunnel companies).stages.map FunnelStage.count =
      (List.range 5).map fun i => sumOf (statusCounts companies) (funnelStages.drop i) := rfl
  rw [hstages]
  refine List.map_congr_left fun i hi => ?_
  exact sumOf_statusCounts companies (List.mem_range.mp hi)

/-- The dashboard divides the counts of the analytics. -/
theorem getConversions_eq (companies : List Company) :
    getConversions companies =
      { discoveryToEnrichment := rate (reached companies 1) (reached companies 0)
        enrichmentToQualified := rate (reached companies 2) (reached companies 1)
        qualifiedToPushed := rate (reached companies 4) (reached companies 3) } := by
  have hall : sumOf (statusCounts companies) funnelStages = reached companies 0 :=
    sumOf_statusCounts companies (i := 0) (by decide)
  have hfrom : ∀ i < 5, sumOf (statusCounts companies) (funnelStages.drop i) =
      reached companies i := fun i hi => sumOf_statusCounts companies hi
  simp only [getConversions, hall, countOf_pushed, hfrom 1 (by decide), hfrom 2 (by decide),
    hfrom 3 (by decide)]

end Funnel
end LeadPulse
