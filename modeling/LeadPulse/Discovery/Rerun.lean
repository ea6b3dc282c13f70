import LeadPulse.Discovery.Accounting

/-!
# The same response again

A discovery run compares a record with the names it holds in memory, the next one with the names
it reads back from the table. Whatever the first run has added or passed over as a duplicate has a
name in the table then that is similar to the record's, so that the second run adds nothing. That
holds also if `normalize_domain` has raised for a record of the response: what the first run had
added by then has been committed, and the second run gets no further either.
-/

namespace LeadPulse
namespace Discovery

open Domain

/-! ## The two runs -/

/-- The insert of a record that is no duplicate fails. -/
def InsertFails (U : Unicode) (cfg : DiscoveryConfig) (s : DiscoveryState)
    (bd : BedrijfsdataCompany) : Prop :=
  ∃ raw v, bd.domain = some raw ∧ raw ≠ [] ∧ normalizeDomain U raw = .ok v ∧
    ¬ isDuplicate cfg s bd.name v ∧
    insertCompany s.companies bd.name v .discovered bd.othersFit = none

/-- A run that neither the time limit nor the cap stops, and without insert failures. -/
def Undisturbed (U : Unicode) (cfg : DiscoveryConfig) (companies : List Company)
    (records : List BedrijfsdataCompany) : Prop :=
  Run.AllSteps (processRecord U cfg) (fun s bd => LooksAt cfg s bd ∧ ¬ InsertFails U cfg s bd)
    (discoveryStart companies) records

/-- Nothing was archived, deleted or renamed in between. -/
def Kept (companies companies₂ : List Company) : Prop :=
  ∀ c ∈ companies, c.status ≠ .archived →
    ∃ c₂ ∈ companies₂, c₂.id = c.id ∧ c₂.name = c.name ∧ c₂.status ≠ .archived

/-- The same names and domains; time limits and insert failures may differ. -/
def SameResponse (records records₂ : List BedrijfsdataCompany) : Prop :=
  records₂.map (fun bd => (bd.name, bd.domain)) = records.map fun bd => (bd.name, bd.domain)

/-! ## The first run -/

/-- The record has no domain, or a name similar to one of `names`. -/
def Covered (cfg : DiscoveryConfig) (names : List (List Char)) (bd : BedrijfsdataCompany) : Prop :=
  (∀ raw ∈ bd.domain, raw = []) ∨ ∃ name ∈ names, cfg.similar bd.name name = true

section

variable {U : Unicode} {cfg : DiscoveryConfig} {companies news : List Company}
  {s s' : DiscoveryState} {bd : BedrijfsdataCompany} {names : List (List Char)}

theorem Covered.mono {names' : List (List Char)} (h : Covered cfg names bd)
    (hsub : ∀ name ∈ names, name ∈ names') : Covered cfg names' bd := by
  rcases h with h | ⟨name, hname, hsim⟩
  · exact Or.inl h
  · exact Or.inr ⟨name, hsub name hname, hsim⟩

/-- The name in a pair is one of the names. -/
theorem InStep.mem_names (h : InStep cfg companies s news) {name v : List Char}
    (hpair : (name, v) ∈ s.pairs) : name ∈ s.names := by
  rw [h.pairs, List.mem_append] at hpair
  rw [h.names, List.mem_append]
  rcases hpair with hpair | hpair
  · obtain ⟨c, hc, heq⟩ := List.mem_map.mp hpair
    rw [List.mem_filter, decide_eq_true_eq] at hc
    refine Or.inl (List.mem_map.mpr ⟨c, List.mem_filter.mpr ⟨hc.1, ?_⟩, congrArg Prod.fst heq⟩)
    exact decide_eq_true hc.2.1
  · obtain ⟨c, hc, heq⟩ := List.mem_map.mp hpair
    exact Or.inr (List.mem_map.mpr ⟨c, hc, congrArg Prod.fst heq⟩)

/-- What an undisturbed step has dealt with is covered by the names after it. -/
theorem covered_step (hself : ∀ name, cfg.similar name name = true)
    (h : InStep cfg companies s news) (hlook : LooksAt cfg s bd) (hins : ¬ InsertFails U cfg s bd)
    (hs : processRecord U cfg s bd = some s') :
    Covered cfg s'.names bd ∧ ∀ name ∈ s.names, name ∈ s'.names := by
  cases processRecord_outcome hs with
  | stopped hstop =>
    rw [hlook.1] at hstop
    cases hstop
  | stops hrun hstop errors hs' =>
    rcases hstop with htime | hcap
    · rw [hlook.2.1] at htime
      cases htime
    · exact absurd hcap hlook.2.2
  | noDomain hlook hdomain => exact ⟨Or.inl hdomain, fun _ hname => hname⟩
  | duplicate hlook hraw hne hv hdup =>
    refine ⟨Or.inr ?_, fun _ hname => hname⟩
    rcases hdup with hpair | hname
    · -- the pair is in memory, and so is its name, which is similar to itself
      exact ⟨bd.name, h.mem_names hpair, hself bd.name⟩
    · exact hname
  | failed hlook hraw hne hv hnew hfail =>
    exact (hins ⟨_, _, hraw, hne, hv, hnew, hfail⟩).elim
  | added hlook hraw hne hv hnew hadd =>
    refine ⟨Or.inr ⟨bd.name, ?_, hself bd.name⟩, fun name hname => List.mem_append_left _ hname⟩
    exact List.mem_append_right _ (List.mem_singleton_self bd.name)

theorem covered_exec (hself : ∀ name, cfg.similar name name = true)
    {records : List BedrijfsdataCompany} (h : ∃ news, InStep cfg companies s news)
    (hall : Run.AllSteps (processRecord U cfg)
      (fun s bd => LooksAt cfg s bd ∧ ¬ InsertFails U cfg s bd) s records)
    (hs : Run.exec (processRecord U cfg) s records = some s') :
    (∀ bd ∈ records, Covered cfg s'.names bd) ∧ ∀ name ∈ s.names, name ∈ s'.names := by
  induction records generalizing s with
  | nil =>
    obtain rfl : s = s' := Option.some.inj hs
    exact ⟨fun _ hbd => absurd hbd List.not_mem_nil, fun _ hname => hname⟩
  | cons bd records ih =>
    rw [Run.exec_cons, Option.bind_eq_some_iff] at hs
    obtain ⟨t, ht, hrest⟩ := hs
    obtain ⟨⟨hlook, hins⟩, htail⟩ := hall t ht
    obtain ⟨news, hnews⟩ := h
    obtain ⟨hcovered, hsub⟩ := covered_step hself hnews hlook hins ht
    obtain ⟨hcovered', hsub'⟩ := ih (InStep.processRecord ⟨news, hnews⟩ ht) htail hrest
    refine ⟨List.forall_mem_cons.mpr ⟨hcovered.mono hsub', hcovered'⟩, fun name hname => ?_⟩
    exact hsub' name (hsub name hname)

/-! ## The second run -/

/-- A record that is covered adds nothing. -/
theorem idle_step (hsub : ∀ name ∈ names, name ∈ s.names) (hbd : Covered cfg names bd)
    (hs : processRecord U cfg s bd = some s') :
    s'.companies = s.companies ∧ s'.names = s.names := by
  cases processRecord_outcome hs with
  | stopped hstop => exact ⟨rfl, rfl⟩
  | stops hrun hstop errors hs' =>
    rw [hs']
    exact ⟨rfl, rfl⟩
  | noDomain hlook hdomain => exact ⟨rfl, rfl⟩
  | duplicate hlook hraw hne hv hdup => exact ⟨rfl, rfl⟩
  | failed hlook hraw hne hv hnew hins => exact ⟨rfl, rfl⟩
  | added hlook hraw hne hv hnew hins =>
    rcases hbd with hbd | ⟨name, hname, hsim⟩
    · exact absurd (hbd _ hraw) hne
    · exact absurd (Or.inr ⟨name, hsub name hname, hsim⟩) hnew

/-- A run that has been stopped passes over the rest. -/
theorem exec_stopped (hstop : s.stopped = true) (records : List BedrijfsdataCompany) :
    Run.exec (processRecord U cfg) s records = some s := by
  induction records with
  | nil => rfl
  | cons bd records ih =>
    have hstep : processRecord U cfg s bd = some s := if_pos hstop
    rw [Run.exec_cons, hstep]
    exact ih

/-- Past a malformed domain a run gets only if it stops there. -/
theorem malformed_stops (hbd : Malformed U bd) (hs : processRecord U cfg s bd = some s') :
    s'.companies = s.companies ∧ s'.stopped = true := by
  have hlook : ¬ LooksAt cfg s bd := fun hlook => by
    rw [processRecord_eq_none_iff.mpr ⟨hlook, hbd⟩] at hs
    cases hs
  cases processRecord_outcome hs with
  | stopped hstop => exact ⟨rfl, hstop⟩
  | stops hrun hstop errors hs' =>
    rw [hs']
    exact ⟨rfl, rfl⟩
  | noDomain h => exact absurd h hlook
  | duplicate h => exact absurd h hlook
  | failed h => exact absurd h hlook
  | added h => exact absurd h hlook

/-- A run over records that are covered adds nothing, and with a malformed domain it ends. -/
theorem idle_last {before rest : List BedrijfsdataCompany} (hsub : ∀ name ∈ names, name ∈ s.names)
    (hall : ∀ bd ∈ before, Covered cfg names bd) (hrest : ∀ bd ∈ rest.head?, Malformed U bd) :
    (Run.last (processRecord U cfg) s (before ++ rest)).companies = s.companies := by
  induction before generalizing s with
  | nil =>
    cases rest with
    | nil => rfl
    | cons bd rest =>
      rw [List.nil_append, Run.last]
      split
      · rename_i t ht
        obtain ⟨hcompanies, hstop⟩ := malformed_stops (hrest bd rfl) ht
        rw [Run.last_of_exec (exec_stopped hstop rest), hcompanies]
      · rfl
  | cons bd before ih =>
    rw [List.cons_append, Run.last]
    split
    · rename_i t ht
      rw [List.forall_mem_cons] at hall
      obtain ⟨hcompanies, hnames⟩ := idle_step hsub hall.1 ht
      rw [ih (by rwa [hnames]) hall.2, hcompanies]
    · rfl

/-! ## Both runs -/

/-- The names that the first run ends with are there for the second. -/
theorem names_sub_active (h : InStep cfg companies s news) {companies₂ : List Company}
    (hkept : Kept (companies ++ news) companies₂) :
    ∀ name ∈ s.names, name ∈ activeNames companies₂ := by
  have hactive (c : Company) (hc : c ∈ companies ++ news) (hstatus : c.status ≠ .archived) :
      c.name ∈ activeNames companies₂ := by
    obtain ⟨c₂, hc₂, _, hname, hstatus₂⟩ := hkept c hc hstatus
    exact List.mem_map.mpr ⟨c₂, List.mem_filter.mpr ⟨hc₂, decide_eq_true hstatus₂⟩, hname⟩
  intro name hname
  rw [h.names, List.mem_append] at hname
  rcases hname with hname | hname
  · obtain ⟨c, hc, rfl⟩ := List.mem_map.mp hname
    rw [List.mem_filter, decide_eq_true_eq] at hc
    exact hactive c (List.mem_append_left _ hc.1) hc.2
  · obtain ⟨c, hc, rfl⟩ := List.mem_map.mp hname
    refine hactive c (List.mem_append_right _ hc) ?_
    rw [h.discovered c hc]
    decide

/-- What is covered depends on the name and the domain of a record only. -/
theorem SameResponse.covered {records records₂ : List BedrijfsdataCompany}
    (h : SameResponse records records₂) (hall : ∀ bd ∈ records, Covered cfg names bd) :
    ∀ bd ∈ records₂, Covered cfg names bd := by
  intro bd₂ hbd₂
  have hmem := List.mem_map_of_mem (f := fun bd : BedrijfsdataCompany => (bd.name, bd.domain)) hbd₂
  rw [h] at hmem
  obtain ⟨bd, hbd, heq⟩ := List.mem_map.mp hmem
  have hname : bd.name = bd₂.name := congrArg Prod.fst heq
  have hdomain : bd.domain = bd₂.domain := congrArg Prod.snd heq
  have hcovered := hall bd hbd
  unfold Covered at hcovered ⊢
  rwa [← hname, ← hdomain]

/-- The first records of the two have one domain. -/
theorem SameResponse.head {records records₂ : List BedrijfsdataCompany} {bd₂ : BedrijfsdataCompany}
    (h : SameResponse records records₂) (hbd₂ : bd₂ ∈ records₂.head?) :
    ∃ bd ∈ records.head?, bd.domain = bd₂.domain := by
  have hhead : records₂.head?.map (fun bd => (bd.name, bd.domain)) =
      records.head?.map fun bd => (bd.name, bd.domain) := by
    rw [← List.head?_map, ← List.head?_map, h]
  rw [Option.mem_def.mp hbd₂, Option.map_some, eq_comm, Option.map_eq_some_iff] at hhead
  obtain ⟨bd, hbd, heq⟩ := hhead
  exact ⟨bd, hbd, congrArg Prod.snd heq⟩

end

/-- After an undisturbed run on a response, a second one, with whatever cap, adds nothing. -/
theorem rerunAddsNothing {U : Unicode} {cfg : DiscoveryConfig} {companies companies₂ : List Company}
    {records records₂ : List BedrijfsdataCompany}
    (hself : ∀ name, cfg.similar name name = true) (hfirst : Undisturbed U cfg companies records)
    (hkept : Kept (processBedrijfsdataResults U cfg companies records) companies₂)
    (hsame : SameResponse records records₂) (cap : ℕ) :
    processBedrijfsdataResults U { cfg with maxCompanies := cap } companies₂ records₂ =
      companies₂ := by
  -- how far the first run has got
  obtain ⟨before, rest, rfl, hbefore, hrest⟩ :=
    Run.exists_exec_last (processRecord U cfg) (discoveryStart companies) records
  obtain ⟨news, hnews⟩ := inStep_exec hbefore
  have hcovered := (covered_exec hself ⟨[], inStep_start cfg companies⟩
    (Run.AllSteps.of_append hfirst) hbefore).1
  have hstored : processBedrijfsdataResults U cfg companies (before ++ rest) = companies ++ news :=
    hnews.stored
  rw [hstored] at hkept
  have hnames := names_sub_active hnews hkept
  -- the second response splits at the same record
  obtain ⟨before₂, rest₂, rfl, hbefore₂, hrest₂⟩ := List.map_eq_append_iff.mp
    (hsame.trans List.map_append)
  refine idle_last (s := discoveryStart companies₂) hnames
    (SameResponse.covered hbefore₂ hcovered) fun bd₂ hbd₂ => ?_
  obtain ⟨bd, hbd, hdomain⟩ := SameResponse.head hrest₂ hbd₂
  have hmalformed : Malformed U bd := (processRecord_eq_none_iff.mp (hrest bd hbd)).2
  unfold Malformed at hmalformed ⊢
  rwa [← hdomain]

/-- One company, and one with an open bracket in its address. -/
def bracketResponse : List BedrijfsdataCompany :=
  [{ name := "Acme".toList, domain := some "acme.nl".toList },
   { name := "Beta".toList, domain := some "http://[beta.nl".toList }]

theorem undisturbed_bracketResponse : Undisturbed .ascii sameName [] bracketResponse := by
  refine fun s hs => ⟨⟨⟨rfl, rfl, by decide⟩, ?_⟩, fun s' hs' => ?_⟩
  · rintro ⟨raw, v, hraw, _, hv, _, hins⟩
    obtain rfl := Option.some.inj hraw
    obtain rfl : "acme.nl".toList = v := Except.ok.inj ((by decide +kernel :
      normalizeDomain .ascii "acme.nl".toList = .ok "acme.nl".toList).symm.trans hv)
    revert hins
    decide +kernel
  · -- the second record raises
    have hraises : (processRecord .ascii sameName (discoveryStart [])
        { name := "Acme".toList, domain := some "acme.nl".toList }).bind
        (fun s => processRecord .ascii sameName s
          { name := "Beta".toList, domain := some "http://[beta.nl".toList }) = none := by
      decide +kernel
    rw [hs] at hraises
    exact absurd (hs'.symm.trans hraises) (Option.some_ne_none s')

/-- The first run adds a company and raises at the next record. -/
theorem rerunAddsNothing_bracket :
    processBedrijfsdataResults .ascii { sameName with maxCompanies := 0 }
      (processBedrijfsdataResults .ascii sameName [] bracketResponse) bracketResponse =
      processBedrijfsdataResults .ascii sameName [] bracketResponse :=
  rerunAddsNothing (fun _ => decide_eq_true rfl) undisturbed_bracketResponse
    (fun c hc hstatus => ⟨c, hc, rfl, rfl, hstatus⟩) rfl 0

end Discovery
end LeadPulse
