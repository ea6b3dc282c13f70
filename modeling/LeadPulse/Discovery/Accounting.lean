import LeadPulse.Domain.WritersTheorems

/-!
# The accounts of a discovery run

What the loop of `DiscoveryService._process_bedrijfsdata_results` counts, and what it keeps in
memory of the companies that are there, against what it writes. The two stay in step over any list
of records, and a second run over the same records finds all of them.

A record whose domain `normalize_domain` raises for is not counted as skipped: the error leaves the
loop, and what was added before is committed without an account of it. `endsAccounted_iff` says that
nothing else goes wrong, and `rerunAddsNothing` that the next run is not misled by it.
-/

namespace LeadPulse
namespace Discovery

open Domain

/-- The name and the stored domain. -/
def pair (c : Company) : List Char × List Char := (c.name, c.domain)

/-- The names that a run compares with: those of companies that are not archived. -/
def activeNames (companies : List Company) : List (List Char) :=
  (companies.filter fun c => c.status ≠ .archived).map (·.name)

/-- The accounts of a run that has added `news` to `companies`. -/
structure Accounted (cfg : DiscoveryConfig) (companies news : List Company)
    (s : DiscoveryState) : Prop where
  stored : s.companies = companies ++ news
  added : s.added = news.length
  found : s.found = s.added + s.skipped
  cap : 0 < cfg.maxCompanies → s.added ≤ cfg.maxCompanies
  /-- No new company has the name and the domain of one that was there. -/
  newPair : ∀ c ∈ news, ∀ e ∈ companies, pair c ≠ pair e
  /-- The name of a new company is not similar to one that was there. -/
  newName : ∀ c ∈ news, ∀ name ∈ activeNames companies, cfg.similar c.name name = false
  /-- Nor is either shared with a company added before. -/
  distinct : news.Pairwise fun earlier later =>
    pair earlier ≠ pair later ∧ cfg.similar later.name earlier.name = false

/-- The run ends, and its accounts are right. -/
def EndsAccounted (U : Unicode) (cfg : DiscoveryConfig) (companies : List Company)
    (records : List BedrijfsdataCompany) : Prop :=
  ∃ s news, Run.exec (processRecord U cfg) (discoveryStart companies) records = some s ∧
    processBedrijfsdataResults U cfg companies records = companies ++ news ∧
    Accounted cfg companies news s

/-- A record whose turn comes has a domain that `normalize_domain` raises for. -/
def ReachesMalformed (U : Unicode) (cfg : DiscoveryConfig) (companies : List Company)
    (records : List BedrijfsdataCompany) : Prop :=
  ∃ before bd rest s, records = before ++ bd :: rest ∧
    Run.exec (processRecord U cfg) (discoveryStart companies) before = some s ∧
    LooksAt cfg s bd ∧ Malformed U bd

/-! ## One record -/

/-- The invariant of the loop: what is held in memory is what the accounts say. -/
structure InStep (cfg : DiscoveryConfig) (companies : List Company) (s : DiscoveryState)
    (news : List Company) : Prop extends Accounted cfg companies news s where
  names : s.names = activeNames companies ++ news.map (·.name)
  pairs : s.pairs = existingPairs companies ++ news.map pair
  discovered : ∀ c ∈ news, c.status = .discovered

section

variable {U : Unicode} {cfg : DiscoveryConfig} {companies news : List Company}
  {s s' : DiscoveryState} {bd : BedrijfsdataCompany}

theorem inStep_start (cfg : DiscoveryConfig) (companies : List Company) :
    InStep cfg companies (discoveryStart companies) [] where
  stored := (List.append_nil _).symm
  added := rfl
  found := rfl
  cap := fun _ => Nat.zero_le _
  newPair := by simp
  newName := by simp
  distinct := List.Pairwise.nil
  names := (List.append_nil _).symm
  pairs := (List.append_nil _).symm
  discovered := by simp

theorem InStep.skip (h : InStep cfg companies s news) : InStep cfg companies s.skip news where
  stored := h.stored
  added := h.added
  found := by
    have hfound := h.found
    show s.found + 1 = s.added + (s.skipped + 1)
    omega
  cap := h.cap
  newPair := h.newPair
  newName := h.newName
  distinct := h.distinct
  names := h.names
  pairs := h.pairs
  discovered := h.discovered

/-- A new row is one that the unique index and the names allow. -/
theorem InStep.add (h : InStep cfg companies s news) {v : List Char} {stored : List Company}
    (hcap : ¬ capReached cfg s) (hnew : ¬ isDuplicate cfg s bd.name v)
    (hins : insertCompany s.companies bd.name v .discovered bd.othersFit = some stored) :
    ∃ c, InStep cfg companies
      { s with companies := stored, added := s.added + 1, found := s.found + 1,
               pairs := s.pairs ++ [(bd.name, v)], names := s.names ++ [bd.name] }
      (news ++ [c]) := by
  unfold insertCompany at hins
  split at hins
  · rename_i hfits
    obtain rfl := Option.some.inj hins
    -- the unique index has let the row in
    have hfree : ∀ e ∈ companies ++ news, pair e ≠ (bd.name, v) := by
      intro e he heq
      rw [← h.stored] at he
      exact hfits.2.2.2 ⟨e, he, congrArg Prod.fst heq, congrArg Prod.snd heq⟩
    -- and the names in memory are all that there are
    have hother : ∀ name ∈ activeNames companies ++ news.map (·.name),
        cfg.similar bd.name name = false := by
      intro name hname
      rw [← h.names] at hname
      by_contra hsim
      exact hnew (Or.inr ⟨name, hname, by simpa using hsim⟩)
    refine ⟨{ id := s.companies.length, name := bd.name, domain := v, status := .discovered }, ?_⟩
    constructor
    · constructor
      · rw [h.stored, List.append_assoc]
      · rw [List.length_append, h.added]
        rfl
      · have hfound := h.found
        dsimp only
        omega
      · intro hpos
        unfold capReached at hcap
        dsimp only
        omega
      · intro c hc e he
        rcases List.mem_append.mp hc with hc | hc
        · exact h.newPair c hc e he
        · rw [List.mem_singleton.mp hc]
          exact (hfree e (List.mem_append_left _ he)).symm
      · intro c hc name hname
        rcases List.mem_append.mp hc with hc | hc
        · exact h.newName c hc name hname
        · rw [List.mem_singleton.mp hc]
          exact hother name (List.mem_append_left _ hname)
      · rw [List.pairwise_append]
        refine ⟨h.distinct, List.pairwise_singleton _ _, fun e he c hc => ?_⟩
        rw [List.mem_singleton.mp hc]
        exact ⟨hfree e (List.mem_append_right _ he),
          hother e.name (List.mem_append_right _ (List.mem_map_of_mem he))⟩
    · rw [h.names, List.map_append, List.append_assoc]
      rfl
    · rw [h.pairs, List.map_append, List.append_assoc]
      rfl
    · intro c hc
      rcases List.mem_append.mp hc with hc | hc
      · exact h.discovered c hc
      · rw [List.mem_singleton.mp hc]
  · cases hins

theorem InStep.processRecord (h : ∃ news, InStep cfg companies s news)
    (hs : processRecord U cfg s bd = some s') : ∃ news, InStep cfg companies s' news := by
  obtain ⟨news, h⟩ := h
  cases processRecord_outcome hs with
  | stopped hstop => exact ⟨news, h⟩
  | stops hrun hstop errors hs' =>
    rw [hs']
    exact ⟨news, ⟨⟨h.stored, h.added, h.found, h.cap, h.newPair, h.newName, h.distinct⟩, h.names,
      h.pairs, h.discovered⟩⟩
  | noDomain hlook hdomain => exact ⟨news, h.skip⟩
  | duplicate hlook hraw hne hv hdup => exact ⟨news, h.skip⟩
  | failed hlook hraw hne hv hnew hins => exact ⟨news, h.skip⟩
  | added hlook hraw hne hv hnew hins =>
    obtain ⟨c, hc⟩ := h.add hlook.2.2 hnew hins
    exact ⟨news ++ [c], hc⟩

/-! ## Whole runs -/

theorem inStep_exec {records : List BedrijfsdataCompany}
    (h : Run.exec (Domain.processRecord U cfg) (discoveryStart companies) records = some s) :
    ∃ news, InStep cfg companies s news :=
  (Run.AllStates.of_step (fun _ _ _ h hs => InStep.processRecord h hs)
    ⟨[], inStep_start cfg companies⟩ records).exec h

theorem exec_eq_none_iff {records : List BedrijfsdataCompany} :
    Run.exec (Domain.processRecord U cfg) (discoveryStart companies) records = none ↔
      ReachesMalformed U cfg companies records := by
  rw [Run.exec_eq_none_iff]
  unfold ReachesMalformed
  simp only [processRecord_eq_none_iff]

theorem processBedrijfsdataResults_of_exec {records : List BedrijfsdataCompany}
    (h : Run.exec (Domain.processRecord U cfg) (discoveryStart companies) records = some s) :
    processBedrijfsdataResults U cfg companies records = s.companies :=
  congrArg _ (Run.last_of_exec h)

/-- A run ends with its accounts in order exactly if no record whose turn comes has a domain that
`normalize_domain` raises for. -/
theorem endsAccounted_iff (U : Unicode) (cfg : DiscoveryConfig) (companies : List Company)
    (records : List BedrijfsdataCompany) :
    EndsAccounted U cfg companies records ↔ ¬ ReachesMalformed U cfg companies records := by
  rw [← exec_eq_none_iff]
  constructor
  · rintro ⟨s, news, hs, _⟩
    rw [hs]
    exact Option.some_ne_none s
  · intro h
    obtain ⟨s, hs⟩ := Option.ne_none_iff_exists'.mp h
    obtain ⟨news, hnews⟩ := inStep_exec hs
    exact ⟨s, news, hs, (processBedrijfsdataResults_of_exec hs).trans hnews.stored,
      hnews.toAccounted⟩

/-- No cap, and only equal names are similar. -/
def sameName : DiscoveryConfig where
  similar := fun name existing => name = existing
  maxCompanies := 0

/-- The second record has a web address with an open bracket for its domain. The run has found two
companies and added one, and raises. -/
theorem bracket_not_accounted : ¬ EndsAccounted .ascii sameName []
    [{ name := "Acme".toList, domain := some "acme.nl".toList },
     { name := "Beta".toList, domain := some "http://[beta.nl".toList }] := by
  rintro ⟨s, news, hs, _⟩
  have hraises : Run.exec (Domain.processRecord .ascii sameName) (discoveryStart [])
      [{ name := "Acme".toList, domain := some "acme.nl".toList },
       { name := "Beta".toList, domain := some "http://[beta.nl".toList }] = none := by
    decide +kernel
  rw [hs] at hraises
  cases hraises

end

end Discovery
end LeadPulse
