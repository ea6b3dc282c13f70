import LeadPulse.Domain.WritersTheorems
import LeadPulse.Scoring.LeadScore

/-!
# The records of a discovery run

`DiscoveryService._process_bedrijfsdata_results` (`services/discovery.py`) with what it makes of a
record of Bedrijfsdata. The loop itself, with its ways to skip a record, is `processRecord` of
`Domain.Writers`; here a record has the fields from which the new company is built, and the loop
collects the companies. `addsAs` spells out when a record gets as far as that.
-/

namespace LeadPulse
namespace Discovery

open Domain PyStr Scoring

/-- A `BedrijfsdataCompany` with the fields that are compared with the profile. -/
structure BedrijfsdataRecord extends Domain.BedrijfsdataCompany where
  city : Option (List Char) := none
  province : Option (List Char) := none
  employees : Option ℤ := none
  industryLabels : List (List Char) := []
  apps : List (List Char) := []
deriving DecidableEq, Repr

namespace BedrijfsdataRecord

/-- City and province, without what is null or empty. -/
def location (bd : BedrijfsdataRecord) : Option (List Char) :=
  match [bd.city, bd.province].reduceOption.filter (· ≠ []) with
  | [] => none
  | parts => some (", ".toList.intercalate parts)

def industry (bd : BedrijfsdataRecord) : Option (List Char) := bd.industryLabels.head?

/-- What discovery compares with the profile. -/
def input (bd : BedrijfsdataRecord) : ScoreInput where
  industry := bd.industry
  employees := bd.employees
  location := bd.location
  techs := bd.apps

end BedrijfsdataRecord

/-- A company that discovery adds. -/
structure DiscoveredCompany extends ScoredCompany where
  name : List Char
  domain : List Char
deriving DecidableEq, Repr

/-- `",".join(apps)`. -/
def joinApps (apps : List (List Char)) : List Char := [','].intercalate apps

/-- The company for a record with the given normal form of its domain. -/
def newCompany (U : Unicode) (p : ICPProfile) (bd : BedrijfsdataRecord) (normalized : List Char) :
    DiscoveredCompany :=
  let icpScore := calculateIcpScore U p bd.input
  { name := bd.name
    domain := normalized
    industry := bd.industry
    location := bd.location
    status := .discovered
    icpScore := some icpScore
    monitor := monitorThreshold ≤ icpScore
    employeeCount := bd.employees
    apps := joinApps bd.apps }

/-! ## The loop -/

/-- The normal form with which the record is stored, if it is not skipped. -/
def addsAs (U : Unicode) (cfg : DiscoveryConfig) (s : DiscoveryState) (bd : BedrijfsdataRecord) :
    Option (List Char) :=
  if s.stopped ∨ bd.timedOut ∨ capReached cfg s ∨ orEmpty bd.domain = [] then none
  else match normalizeDomain U (orEmpty bd.domain) with
  | .error _ => none
  | .ok normalized =>
    if isDuplicate cfg s bd.name normalized then none
    else (insertCompany s.companies bd.name normalized .discovered bd.othersFit).map fun _ =>
      normalized

/-- The variables of the loop, and the new companies. -/
structure RecordLoop where
  base : DiscoveryState
  added : List DiscoveredCompany := []
deriving DecidableEq, Repr

namespace RecordLoop

variable (U : Unicode) (cfg : DiscoveryConfig) (p : ICPProfile)

/-- The body of the loop; `none` is the `ValueError` of `normalize_domain`. -/
def step (s : RecordLoop) (bd : BedrijfsdataRecord) : Option RecordLoop :=
  (processRecord U cfg s.base bd.toBedrijfsdataCompany).map fun base =>
    { base := base
      added := s.added ++ (addsAs U cfg s.base bd).toList.map (newCompany U p bd) }

def start (companies : List Company) : RecordLoop := { base := discoveryStart companies }

end RecordLoop

/-- The companies that a run adds, up to its end or to an error that leaves the loop. -/
def discover (U : Unicode) (cfg : DiscoveryConfig) (p : ICPProfile) (companies : List Company)
    (records : List BedrijfsdataRecord) : List DiscoveredCompany :=
  (Run.last (RecordLoop.step U cfg p) (RecordLoop.start companies) records).added

/-! ## What a run adds -/

section

variable {U : Unicode} {cfg : DiscoveryConfig} {p : ICPProfile}

/-- The record is not looked at, or has no domain. -/
theorem addsAs_of_skipped {s : DiscoveryState} {bd : BedrijfsdataRecord}
    (h : s.stopped = true ∨ bd.timedOut = true ∨ capReached cfg s ∨ orEmpty bd.domain = []) :
    addsAs U cfg s bd = none :=
  if_pos h

/-- The record gets as far as the duplicates. -/
theorem addsAs_of_looksAt {s : DiscoveryState} {bd : BedrijfsdataRecord} {raw v : List Char}
    (hlook : LooksAt cfg s bd.toBedrijfsdataCompany) (hraw : bd.domain = some raw) (hne : raw ≠ [])
    (hv : normalizeDomain U raw = .ok v) :
    addsAs U cfg s bd = if isDuplicate cfg s bd.name v then none
      else (insertCompany s.companies bd.name v .discovered bd.othersFit).map fun _ => v := by
  have htime : bd.timedOut = false := hlook.2.1
  have hgo : ¬ (s.stopped = true ∨ bd.timedOut = true ∨ capReached cfg s ∨
      orEmpty bd.domain = []) := by
    rw [hlook.1, htime, hraw]
    simpa [orEmpty, hne] using hlook.2.2
  unfold addsAs
  rw [if_neg hgo, hraw]
  show (match normalizeDomain U raw with
    | .error _ => none
    | .ok normalized => _) = _
  rw [hv]

theorem map_insertCompany {companies companies' : List Company} {name domain : List Char}
    {status : CompanyStatus} {othersFit : Bool}
    (h : insertCompany companies name domain status othersFit = some companies') :
    companies'.map (fun c => (c.name, c.domain)) =
      companies.map (fun c => (c.name, c.domain)) ++ [(name, domain)] := by
  unfold insertCompany at h
  split at h
  · obtain rfl := Option.some.inj h
    simp
  · cases h

/-- The loop of `Domain.Writers` writes a row for each new company, and no other. -/
theorem processRecord_companies {s s' : DiscoveryState} {bd : BedrijfsdataRecord}
    (h : processRecord U cfg s bd.toBedrijfsdataCompany = some s') :
    s'.companies.map (fun c => (c.name, c.domain)) =
      s.companies.map (fun c => (c.name, c.domain)) ++
        (addsAs U cfg s bd).toList.map fun normalized => (bd.name, normalized) := by
  -- a record that is skipped leaves the table as it is
  have hskip (heq : s'.companies = s.companies) (hno : addsAs U cfg s bd = none) :
      s'.companies.map (fun c => (c.name, c.domain)) =
        s.companies.map (fun c => (c.name, c.domain)) ++
          (addsAs U cfg s bd).toList.map fun normalized => (bd.name, normalized) := by
    rw [heq, hno, Option.toList_none, List.map_nil, List.append_nil]
  cases processRecord_outcome h with
  | stopped hstop => exact hskip rfl (addsAs_of_skipped (Or.inl hstop))
  | stops hrun hstop errors hs' =>
    refine hskip (by rw [hs']) (addsAs_of_skipped (Or.inr ?_))
    exact hstop.imp_right Or.inl
  | noDomain hlook hdomain =>
    refine hskip rfl (addsAs_of_skipped (Or.inr (Or.inr (Or.inr ?_))))
    cases hraw : bd.domain with
    | none => rfl
    | some raw => exact hdomain raw hraw
  | duplicate hlook hraw hne hv hdup =>
    exact hskip rfl ((addsAs_of_looksAt hlook hraw hne hv).trans (if_pos hdup))
  | failed hlook hraw hne hv hnew hins =>
    refine hskip rfl ((addsAs_of_looksAt hlook hraw hne hv).trans ((if_neg hnew).trans ?_))
    exact congrArg (Option.map _) hins
  | @added raw v companies hlook hraw hne hv hnew hins =>
    have hadds : addsAs U cfg s bd = some v :=
      (addsAs_of_looksAt hlook hraw hne hv).trans
        ((if_neg hnew).trans (congrArg (Option.map _) hins))
    rw [hadds]
    exact map_insertCompany hins

/-- A record is stored with the normal form of its domain. -/
theorem normalizeDomain_of_addsAs {s : DiscoveryState} {bd : BedrijfsdataRecord}
    {normalized : List Char} (h : addsAs U cfg s bd = some normalized) :
    normalizeDomain U (orEmpty bd.domain) = .ok normalized := by
  unfold addsAs at h
  split at h
  · cases h
  split at h
  · cases h
  rename_i normal hnormal
  split at h
  · cases h
  obtain ⟨_, _, rfl⟩ := Option.map_eq_some_iff.mp h
  exact hnormal

/-- What a step adds. -/
theorem RecordLoop.added_of_step {s s' : RecordLoop} {bd : BedrijfsdataRecord}
    (h : RecordLoop.step U cfg p s bd = some s') : s'.added =
      s.added ++ (addsAs U cfg s.base bd).toList.map (newCompany U p bd) := by
  obtain ⟨base, _, rfl⟩ := Option.map_eq_some_iff.mp h
  rfl

/-- All new companies have a property exactly if each record that is added gives one that has. -/
theorem forall_added_iff {Q : DiscoveredCompany → Prop} (s : RecordLoop)
    (records : List BedrijfsdataRecord) :
    (∀ c ∈ (Run.last (RecordLoop.step U cfg p) s records).added, Q c) ↔ (∀ c ∈ s.added, Q c) ∧
      Run.AllSteps (RecordLoop.step U cfg p)
        (fun s bd => ∀ normalized ∈ addsAs U cfg s.base bd, Q (newCompany U p bd normalized))
        s records := by
  induction records generalizing s with
  | nil => exact (and_iff_left trivial).symm
  | cons bd records ih =>
    rw [Run.last]
    cases ht : RecordLoop.step U cfg p s bd with
    | none =>
      -- the error ends the run, and with it the steps
      refine (and_iff_left fun s' hs' => ?_).symm
      rw [ht] at hs'
      cases hs'
    | some t =>
      have hnew : (∀ c ∈ t.added, Q c) ↔ (∀ c ∈ s.added, Q c) ∧
          ∀ normalized ∈ addsAs U cfg s.base bd, Q (newCompany U p bd normalized) := by
        rw [RecordLoop.added_of_step ht, List.forall_mem_append]
        simp
      rw [ih t, hnew, and_assoc]
      refine and_congr_right fun _ => ⟨fun hs t' ht' => ?_, fun hs => hs t ht⟩
      obtain rfl := Option.some.inj (ht.symm.trans ht')
      exact hs

/-- A run adds companies with a property only, exactly if each record that is added gives one that
has it. -/
theorem forall_discover_iff {Q : DiscoveredCompany → Prop} (companies : List Company)
    (records : List BedrijfsdataRecord) :
    (∀ c ∈ discover U cfg p companies records, Q c) ↔
      Run.AllSteps (RecordLoop.step U cfg p)
        (fun s bd => ∀ normalized ∈ addsAs U cfg s.base bd, Q (newCompany U p bd normalized))
        (RecordLoop.start companies) records :=
  (forall_added_iff (RecordLoop.start companies) records).trans
    (and_iff_right fun _ hc => nomatch hc)

end

end Discovery
end LeadPulse
