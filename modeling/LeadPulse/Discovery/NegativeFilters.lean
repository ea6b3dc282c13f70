import LeadPulse.Discovery.Rescoring

/-!
# The negative filters of a profile

A profile may exclude industries and domains. Neither the query of discovery nor its loop over the
records looks at them, so what a run adds does not depend on them: a record that meets a negative
filter is kept out only if it is skipped for another reason, `noneExcluded_iff`.
-/

namespace LeadPulse
namespace Discovery

open Domain PyStr Scoring

/-- The domain is one of the excluded ones, or the industry is one that scoring disqualifies. -/
def Excluded (U : Unicode) (p : ICPProfile) (domain : List Char) (industry : Option (List Char)) :
    Prop :=
  domain ∈ ((p.negativeFilters.map (·.excludedDomains)).getD []).map String.toList ∨
    disqualified U p industry = true

instance (U : Unicode) (p : ICPProfile) (domain : List Char) (industry : Option (List Char)) :
    Decidable (Excluded U p domain industry) :=
  inferInstanceAs (Decidable (_ ∨ _))

/-- A run adds the same companies, with the same columns, whatever the negative filters are. -/
theorem discover_negativeFilters (U : Unicode) (cfg : DiscoveryConfig) (p : ICPProfile)
    (filters : Option NegativeFilters) (companies : List Company)
    (records : List BedrijfsdataRecord) :
    discover U cfg { p with negativeFilters := filters } companies records =
      discover U cfg p companies records := rfl

/-- A run adds no excluded company exactly if each record with an excluded domain or industry whose
turn comes is skipped: it has no domain or is a duplicate, the time is up or the cap reached, or it
cannot be stored. -/
theorem noneExcluded_iff (U : Unicode) (cfg : DiscoveryConfig) (p : ICPProfile)
    (companies : List Company) (records : List BedrijfsdataRecord) :
    (∀ c ∈ discover U cfg p companies records, ¬ Excluded U p c.domain c.industry) ↔
      Run.AllSteps (RecordLoop.step U cfg p)
        (fun s bd => ∀ normalized, normalizeDomain U (orEmpty bd.domain) = .ok normalized →
          Excluded U p normalized bd.industry → addsAs U cfg s.base bd = none)
        (RecordLoop.start companies) records := by
  have hcond : ∀ (s : RecordLoop) (bd : BedrijfsdataRecord),
      (∀ normalized ∈ addsAs U cfg s.base bd, ¬ Excluded U p
        (newCompany U p bd normalized).domain (newCompany U p bd normalized).industry) ↔
      ∀ normalized, normalizeDomain U (orEmpty bd.domain) = .ok normalized →
        Excluded U p normalized bd.industry → addsAs U cfg s.base bd = none := by
    intro s bd
    constructor
    · intro h normalized hnormal hexcluded
      cases hadds : addsAs U cfg s.base bd with
      | none => rfl
      | some stored =>
        have hstored := normalizeDomain_of_addsAs hadds
        obtain rfl : normalized = stored := Except.ok.inj (hnormal.symm.trans hstored)
        exact absurd hexcluded (h normalized hadds)
    · intro h normalized hadds hexcluded
      have hnone := h normalized (normalizeDomain_of_addsAs hadds) hexcluded
      rw [Option.mem_def.mp hadds] at hnone
      cases hnone
  rw [forall_discover_iff]
  simp only [hcond]

/-- The record is of an excluded industry and has an excluded domain, and is added. -/
theorem excluded_added : ¬ ∀ c ∈ discover .ascii ⟨fun _ _ => false, 0⟩ softwareProfile []
    [gamblingRecord], ¬ Excluded .ascii softwareProfile c.domain c.industry := by
  decide +kernel

end Discovery
end LeadPulse
