import LeadPulse.Discovery.Records

/-!
# Discovery and rescoring

Discovery scores a record of Bedrijfsdata and `score_company` scores the company that was stored
for it, with the same `calculate_icp_score`. Two things differ: only `score_company` looks at the
excluded industries, and it gets the technologies by splitting the text that discovery has made of
them. `rescoresAlike_iff` says for which records this makes no difference; `excluded_rescored` is
one for which it does.
-/

namespace LeadPulse
namespace Discovery

open Domain PyStr Scoring

/-- `score_company` finds the scores as discovery has left them. -/
def RescoresAlike (U : Unicode) (p : ICPProfile) (c : DiscoveredCompany) : Prop :=
  ∀ (d : Dimensions) (now : Time),
    (scoreCompany U (some p) d now c.toScoredCompany).icpScore = c.icpScore ∧
      (scoreCompany U (some p) d now c.toScoredCompany).monitor = c.monitor

/-- What is left of the technologies of a record when they are read back from the company. -/
def restored (bd : BedrijfsdataRecord) : ScoreInput :=
  { bd.input with techs := splitApps (joinApps bd.apps) }

/-- A record of an excluded industry meets none of the criteria, of which there are some; any
other record has technologies that decide the technology criterion like those that are read
back. -/
def ScoresAlike (U : Unicode) (p : ICPProfile) (bd : BedrijfsdataRecord) : Prop :=
  if disqualified U p bd.industry then
    criteria U p bd.input ≠ [] ∧ true ∉ criteria U p bd.input
  else techCriterion U p bd.input = techCriterion U p (restored bd)

instance (U : Unicode) (p : ICPProfile) : DecidablePred (ScoresAlike U p) := fun bd =>
  inferInstanceAs (Decidable (if disqualified U p bd.industry then
    criteria U p bd.input ≠ [] ∧ true ∉ criteria U p bd.input
  else techCriterion U p bd.input = techCriterion U p (restored bd)))

variable {U : Unicode} {p : ICPProfile}

/-- The fit that `score_company` calculates for a new company. -/
theorem calcIcpFit_newCompany (bd : BedrijfsdataRecord) (normalized : List Char) :
    calcIcpFit U (some p) (newCompany U p bd normalized).toScoredCompany =
      if disqualified U p bd.industry then 0 else calculateIcpScore U p (restored bd) := rfl

/-- The two scores of a record agree if the fit is the score of discovery. -/
theorem rescoresAlike_newCompany_iff (bd : BedrijfsdataRecord) (normalized : List Char) :
    RescoresAlike U p (newCompany U p bd normalized) ↔
      roundHundredth (if disqualified U p bd.industry then 0
        else calculateIcpScore U p (restored bd)) = calculateIcpScore U p bd.input := by
  constructor
  · intro h
    have hscore := (h { signalStrength := 0, contactQuality := 0, recency := 0 } 0).1
    exact Option.some.inj hscore
  · intro h d now
    have hicp : (scoreCompany U (some p) d now
        (newCompany U p bd normalized).toScoredCompany).icpScore =
          some (calculateIcpScore U p bd.input) := congrArg some h
    refine ⟨hicp, ?_⟩
    show decide (monitorThreshold ≤ roundHundredth _) = decide (monitorThreshold ≤ _)
    rw [calcIcpFit_newCompany, h]

theorem rescoresAlike_newCompany (bd : BedrijfsdataRecord) (normalized : List Char) :
    RescoresAlike U p (newCompany U p bd normalized) ↔ ScoresAlike U p bd := by
  rw [rescoresAlike_newCompany_iff]
  unfold ScoresAlike
  split
  · have hzero : roundHundredth 0 = 0 := by decide +kernel
    rw [hzero, eq_comm, calculateIcpScore_eq_zero_iff]
  · rw [roundHundredth_calculateIcpScore, eq_comm]
    exact calculateIcpScore_techs_iff _

/-- Technologies without commas, spaces at their ends or empty names are read back as they were. -/
theorem splitApps_joinApps {apps : List (List Char)}
    (h : ∀ a ∈ apps, ',' ∉ a ∧ strip a = a ∧ a ≠ []) : splitApps (joinApps apps) = apps := by
  unfold splitApps joinApps
  by_cases hnil : apps = []
  · subst hnil
    rfl
  · have hsplit : ([','].intercalate apps).splitOn ',' = apps :=
      List.splitOn_intercalate ',' (fun a ha => (h a ha).1) hnil
    have hstrip : apps.map strip = apps :=
      (List.map_congr_left fun a ha => (h a ha).2.1).trans (List.map_id apps)
    rw [hsplit, hstrip]
    exact List.filter_eq_self.mpr fun a ha => by simpa using (h a ha).2.2

/-- A record whose industry is not excluded and whose technologies are plain scores alike. -/
theorem scoresAlike_of_plain {bd : BedrijfsdataRecord} (hind : disqualified U p bd.industry = false)
    (happs : ∀ a ∈ bd.apps, ',' ∉ a ∧ strip a = a ∧ a ≠ []) : ScoresAlike U p bd := by
  unfold ScoresAlike restored
  rw [hind, splitApps_joinApps happs]
  rfl

/-- The companies that a run adds are rescored as they were scored exactly if each record that is
added scores alike. -/
theorem rescoresAlike_iff (U : Unicode) (cfg : DiscoveryConfig) (p : ICPProfile)
    (companies : List Company) (records : List BedrijfsdataRecord) :
    (∀ c ∈ discover U cfg p companies records, RescoresAlike U p c) ↔
      Run.AllSteps (RecordLoop.step U cfg p)
        (fun s bd => (addsAs U cfg s.base bd).isSome = true → ScoresAlike U p bd)
        (RecordLoop.start companies) records := by
  have hcond : ∀ (s : RecordLoop) (bd : BedrijfsdataRecord),
      (∀ normalized ∈ addsAs U cfg s.base bd,
        RescoresAlike U p (newCompany U p bd normalized)) ↔
      ((addsAs U cfg s.base bd).isSome = true → ScoresAlike U p bd) := by
    intro s bd
    simp only [rescoresAlike_newCompany]
    cases addsAs U cfg s.base bd <;> simp
  rw [forall_discover_iff]
  simp only [hcond]

/-- A profile for software companies, but none of gambling. -/
def softwareProfile : ICPProfile where
  id := 1
  name := "Software"
  industryFilter := some ["software"]
  sizeFilter := none
  geoFilter := none
  techFilter := none
  negativeFilters := some { excludedIndustries := ["gambling"], excludedDomains := ["acme.nl"] }
  isActive := true

/-- A record that meets the profile, with an industry that is excluded. -/
def gamblingRecord : BedrijfsdataRecord where
  name := "Acme".toList
  domain := some "acme.nl".toList
  industryLabels := ["Gambling software".toList]

/-- Discovery stores the record with a score of 100 and lets it be monitored; the next scoring run
finds 0. -/
theorem excluded_rescored : ¬ ∀ c ∈ discover .ascii ⟨fun _ _ => false, 0⟩ softwareProfile []
    [gamblingRecord], RescoresAlike .ascii softwareProfile c := by
  intro h
  have hscore : (discover .ascii ⟨fun _ _ => false, 0⟩ softwareProfile [] [gamblingRecord]).all
      (fun c => (scoreCompany .ascii (some softwareProfile)
        { signalStrength := 0, contactQuality := 0, recency := 0 } 0 c.toScoredCompany).icpScore =
          c.icpScore) = true :=
    List.all_eq_true.mpr fun c hc => decide_eq_true (h c hc _ _).1
  exact absurd hscore (by decide +kernel)

end Discovery
end LeadPulse
