import LeadPulse.Discovery.Rerun
import LeadPulse.Lib.Resume

/-!
# Runs that break off

A run breaks off at the time limit or the cap, or at an error. The next one starts at the first
record again: it passes over what is there by now, and goes on from where the others have got to.
So any runs over one response leave what a single run leaves that nothing has stopped, up to the
last record that one of them has dealt with (`discoveries_eq`), and runs with a cap add as many
companies as one run with the sum of the caps (`discover_twice`).
-/

namespace LeadPulse
namespace Discovery

open Domain

/-! ## What a record does to the table -/

/-- A table with new companies, none of them archived. -/
def Grows (companies companies' : List Company) : Prop :=
  ∃ news, companies' = companies ++ news ∧ ∀ c ∈ news, c.status ≠ .archived

/-- What a record does to a table, if it is not malformed: a company is added unless its name is
similar to one that is there, or the row does not fit. -/
def grow (U : Unicode) (cfg : DiscoveryConfig) (companies : List Company)
    (bd : BedrijfsdataCompany) : List Company :=
  match bd.domain with
  | none | some [] => companies
  | some domain =>
    match normalizeDomain U domain with
    | .error _ => companies
    | .ok normalized =>
      if (activeNames companies).any (cfg.similar bd.name ·) then companies
      else (insertCompany companies bd.name normalized .discovered bd.othersFit).getD companies

section

variable {U : Unicode} {cfg : DiscoveryConfig} {companies companies' : List Company}
  {bd : BedrijfsdataCompany}

theorem grow_of_noDomain (h : ∀ raw ∈ bd.domain, raw = []) :
    grow U cfg companies bd = companies := by
  unfold grow
  split
  · rfl
  · rfl
  · rename_i raw hne hraw
    exact absurd (h _ hraw) hne

theorem grow_of_domain {raw v : List Char} (hraw : bd.domain = some raw) (hne : raw ≠ [])
    (hv : normalizeDomain U raw = .ok v) : grow U cfg companies bd =
      if (activeNames companies).any (cfg.similar bd.name ·) then companies
      else (insertCompany companies bd.name v .discovered bd.othersFit).getD companies := by
  unfold grow
  rw [hraw]
  split
  · rename_i h
    cases h
  · rename_i h
    exact absurd (Option.some.inj h) hne
  · rename_i raw' hne' h
    obtain rfl := Option.some.inj h
    rw [hv]

/-- A record without a domain, or with a malformed one, does nothing to any table. -/
theorem grow_cases (U : Unicode) (cfg : DiscoveryConfig) (bd : BedrijfsdataCompany) :
    (∀ companies, grow U cfg companies bd = companies) ∨
    ∃ v, ∀ companies, grow U cfg companies bd =
      if (activeNames companies).any (cfg.similar bd.name ·) then companies
      else (insertCompany companies bd.name v .discovered bd.othersFit).getD companies := by
  by_cases hdomain : ∀ raw ∈ bd.domain, raw = []
  · exact .inl fun companies => grow_of_noDomain hdomain
  push Not at hdomain
  obtain ⟨raw, hraw, hne⟩ := hdomain
  cases hv : normalizeDomain U raw with
  | ok v => exact .inr ⟨v, fun companies => grow_of_domain hraw hne hv⟩
  | error e =>
    left
    intro companies
    unfold grow
    rw [Option.mem_def.mp hraw]
    split
    · rfl
    · rfl
    · rename_i raw' _ h
      obtain rfl := Option.some.inj h
      rw [hv]

/-- A company that has been inserted is at the end of the table. -/
theorem insertCompany_some {name domain : List Char} {othersFit : Bool}
    (h : insertCompany companies name domain .discovered othersFit = some companies') :
    ∃ c, companies' = companies ++ [c] ∧ c.name = name ∧ c.status = .discovered := by
  unfold insertCompany at h
  split at h
  · obtain rfl := Option.some.inj h
    exact ⟨_, rfl, rfl, rfl⟩
  · cases h

theorem grows_insertCompany {name domain : List Char} {othersFit : Bool}
    (h : insertCompany companies name domain .discovered othersFit = some companies') :
    Grows companies companies' := by
  obtain ⟨c, rfl, -, hstatus⟩ := insertCompany_some h
  refine ⟨[c], rfl, fun d hd => ?_⟩
  rw [List.mem_singleton.mp hd, hstatus]
  decide

/-- A row that does not fit does not fit later either. -/
theorem insertCompany_none {name domain : List Char} {othersFit : Bool}
    (hgrows : Grows companies companies')
    (h : insertCompany companies name domain .discovered othersFit = none) :
    insertCompany companies' name domain .discovered othersFit = none := by
  obtain ⟨news, rfl, -⟩ := hgrows
  unfold insertCompany at h ⊢
  split at h
  · cases h
  · rename_i hfit
    refine if_neg fun hfit' => hfit ⟨hfit'.1, hfit'.2.1, hfit'.2.2.1, ?_⟩
    rintro ⟨c, hc, heq⟩
    exact hfit'.2.2.2 ⟨c, List.mem_append_left _ hc, heq⟩

theorem activeNames_append {news : List Company} (h : ∀ c ∈ news, c.status ≠ .archived) :
    activeNames (companies ++ news) = activeNames companies ++ news.map (·.name) := by
  have hfilter : (news.filter fun c => c.status ≠ .archived) = news :=
    List.filter_eq_self.mpr fun c hc => decide_eq_true (h c hc)
  unfold activeNames
  rw [List.filter_append, List.map_append, hfilter]

theorem any_similar_mono (hgrows : Grows companies companies')
    (h : (activeNames companies).any (cfg.similar bd.name ·) = true) :
    (activeNames companies').any (cfg.similar bd.name ·) = true := by
  obtain ⟨news, rfl, hnews⟩ := hgrows
  rw [activeNames_append hnews, List.any_append, h, Bool.true_or]

theorem grows_grow (U : Unicode) (cfg : DiscoveryConfig) (companies : List Company)
    (bd : BedrijfsdataCompany) : Grows companies (grow U cfg companies bd) := by
  have hrefl : Grows companies companies :=
    ⟨[], (List.append_nil _).symm, fun _ hc => nomatch hc⟩
  rcases grow_cases U cfg bd with h | ⟨v, h⟩
  · rw [h]
    exact hrefl
  · rw [h]
    split
    · exact hrefl
    · cases hins : insertCompany companies bd.name v .discovered bd.othersFit with
      | none => exact hrefl
      | some inserted => exact grows_insertCompany hins

theorem grow_absorbed (hself : ∀ name, cfg.similar name name = true)
    (h : Grows (grow U cfg companies bd) companies') : grow U cfg companies' bd = companies' := by
  rcases grow_cases U cfg bd with hgrow | ⟨v, hgrow⟩
  · exact hgrow companies'
  rw [hgrow] at h ⊢
  split at h
  · rename_i hsim
    rw [if_pos (any_similar_mono h hsim)]
  · cases hins : insertCompany companies bd.name v .discovered bd.othersFit with
    | none =>
      rw [hins] at h
      rw [insertCompany_none h hins, Option.getD_none, ite_self]
    | some inserted =>
      rw [hins] at h
      obtain ⟨c, rfl, hname, hstatus⟩ := insertCompany_some hins
      have hsim : (activeNames (companies ++ [c])).any (cfg.similar bd.name ·) = true := by
        rw [activeNames_append (by simp [hstatus]), List.any_append]
        simp [hname, hself]
      rw [if_pos (any_similar_mono h hsim)]

end

/-- A record has nothing more to do once it has been dealt with. -/
theorem absorbing_grow (U : Unicode) (cfg : DiscoveryConfig)
    (hself : ∀ name, cfg.similar name name = true) :
    Resume.Absorbing Grows (grow U cfg) where
  refl companies := ⟨[], (List.append_nil _).symm, fun _ hc => nomatch hc⟩
  trans := by
    rintro s t u ⟨news, rfl, hnews⟩ ⟨news', rfl, hnews'⟩
    refine ⟨news ++ news', List.append_assoc _ _ _, fun c hc => ?_⟩
    rcases List.mem_append.mp hc with hc | hc
    · exact hnews c hc
    · exact hnews' c hc
  le_step := grows_grow U cfg
  absorbed := grow_absorbed hself

/-! ## The loop -/

section

variable {U : Unicode} {cfg : DiscoveryConfig} {companies news : List Company}
  {s s' : DiscoveryState} {bd : BedrijfsdataCompany}

/-- What is a duplicate to the loop has a similar name in the table. -/
theorem InStep.isDuplicate_iff (hself : ∀ name, cfg.similar name name = true)
    (h : InStep cfg companies s news) {v : List Char} :
    isDuplicate cfg s bd.name v ↔
      (activeNames s.companies).any (cfg.similar bd.name ·) = true := by
  have hnames : s.names = activeNames s.companies := by
    rw [h.stored, activeNames_append fun c hc => by rw [h.discovered c hc]; decide]
    exact h.names
  rw [← hnames, List.any_eq_true]
  constructor
  · rintro (hpair | hname)
    · exact ⟨bd.name, h.mem_names hpair, hself bd.name⟩
    · exact hname
  · exact .inr

/-- A record whose turn comes. -/
theorem InStep.companies_eq_grow (hself : ∀ name, cfg.similar name name = true)
    (h : InStep cfg companies s news) (hlook : LooksAt cfg s bd)
    (hs : Domain.processRecord U cfg s bd = some s') :
    s'.companies = grow U cfg s.companies bd ∧ s'.found = s.found + 1 ∧ s'.stopped = false := by
  cases processRecord_outcome hs with
  | stopped hstop =>
    rw [hlook.1] at hstop
    cases hstop
  | stops hrun hstop errors hs' =>
    rcases hstop with htime | hcap
    · rw [hlook.2.1] at htime
      cases htime
    · exact absurd hcap hlook.2.2
  | noDomain _ hdomain => exact ⟨(grow_of_noDomain hdomain).symm, rfl, hlook.1⟩
  | duplicate _ hraw hne hv hdup =>
    refine ⟨?_, rfl, hlook.1⟩
    rw [grow_of_domain hraw hne hv, if_pos ((h.isDuplicate_iff hself).mp hdup)]
    rfl
  | failed _ hraw hne hv hnew hins =>
    refine ⟨?_, rfl, hlook.1⟩
    rw [grow_of_domain hraw hne hv, if_neg (mt (h.isDuplicate_iff hself).mpr hnew), hins]
    rfl
  | added _ hraw hne hv hnew hins =>
    refine ⟨?_, rfl, hlook.1⟩
    rw [grow_of_domain hraw hne hv, if_neg (mt (h.isDuplicate_iff hself).mpr hnew), hins]
    rfl

/-- A record whose turn does not come. -/
theorem stopped_of_not_looksAt (hlook : ¬ LooksAt cfg s bd)
    (hs : processRecord U cfg s bd = some s') :
    s'.companies = s.companies ∧ s'.found = s.found ∧ s'.stopped = true := by
  cases processRecord_outcome hs with
  | stopped hstop => exact ⟨rfl, rfl, hstop⟩
  | stops hrun hstop errors hs' =>
    rw [hs']
    exact ⟨rfl, rfl, rfl⟩
  | noDomain h => exact absurd h hlook
  | duplicate h => exact absurd h hlook
  | failed h => exact absurd h hlook
  | added h => exact absurd h hlook

/-- A run leaves what the records that it has dealt with do to the table, one after the other. An
error leaves it in front of the malformed record. -/
theorem companies_eq_foldl (hself : ∀ name, cfg.similar name name = true)
    (records : List BedrijfsdataCompany) (h : ∃ news, InStep cfg companies s news) :
    ∃ n, (Run.last (processRecord U cfg) s records).found = s.found + n ∧
      (Run.last (processRecord U cfg) s records).companies =
        (records.take n).foldl (grow U cfg) s.companies ∧
      ∀ bd ∈ records.take n, ¬ Malformed U bd := by
  induction records generalizing s with
  | nil => exact ⟨0, rfl, rfl, List.forall_mem_nil _⟩
  | cons bd records ih =>
    rw [Run.last]
    cases ht : processRecord U cfg s bd with
    | none => exact ⟨0, rfl, rfl, List.forall_mem_nil _⟩
    | some t =>
      dsimp only
      by_cases hlook : LooksAt cfg s bd
      · obtain ⟨news, hnews⟩ := h
        obtain ⟨hcompanies, hfound, -⟩ := hnews.companies_eq_grow hself hlook ht
        obtain ⟨n, hn, hfold, hok⟩ := ih (InStep.processRecord ⟨news, hnews⟩ ht)
        refine ⟨n + 1, by omega, ?_, ?_⟩
        · rw [hfold, hcompanies]
          rfl
        · rw [List.take_succ_cons, List.forall_mem_cons]
          refine ⟨fun hbad => ?_, hok⟩
          rw [processRecord_eq_none_iff.mpr ⟨hlook, hbad⟩] at ht
          cases ht
      · obtain ⟨hcompanies, hfound, hstop⟩ := stopped_of_not_looksAt hlook ht
        rw [Run.last_of_exec (exec_stopped hstop records)]
        exact ⟨0, hfound, hcompanies, List.forall_mem_nil _⟩

/-- A record that is looked at counts as added if the table has changed. -/
theorem added_cases (hs : processRecord U cfg s bd = some s') :
    s'.companies = s.companies ∧ s'.added = s.added ∨
      s'.companies ≠ s.companies ∧ s'.added = s.added + 1 := by
  cases processRecord_outcome hs with
  | stopped hstop => exact .inl ⟨rfl, rfl⟩
  | stops hrun hstop errors hs' =>
    rw [hs']
    exact .inl ⟨rfl, rfl⟩
  | noDomain => exact .inl ⟨rfl, rfl⟩
  | duplicate => exact .inl ⟨rfl, rfl⟩
  | failed => exact .inl ⟨rfl, rfl⟩
  | added _ _ _ _ _ hins =>
    obtain ⟨c, rfl, -⟩ := insertCompany_some hins
    refine .inr ⟨fun heq => ?_, rfl⟩
    have hlen := congrArg List.length heq
    simp at hlen

/-- The records at whose turn the time is not up, and whose domains are in order. -/
def Plain (U : Unicode) (records : List BedrijfsdataCompany) : Prop :=
  ∀ bd ∈ records, bd.timedOut = false ∧ ¬ Malformed U bd

/-- A run that nothing stops. -/
theorem exec_uncapped (hself : ∀ name, cfg.similar name name = true)
    (hcap : cfg.maxCompanies = 0) {records : List BedrijfsdataCompany} (hplain : Plain U records)
    (h : ∃ news, InStep cfg companies s news) (hrun : s.stopped = false) :
    ∃ s', Run.exec (processRecord U cfg) s records = some s' ∧
      s'.companies = records.foldl (grow U cfg) s.companies := by
  induction records generalizing s with
  | nil => exact ⟨s, rfl, rfl⟩
  | cons bd records ih =>
    obtain ⟨⟨htime, hok⟩, hplain⟩ := List.forall_mem_cons.mp hplain
    have hlook : LooksAt cfg s bd := ⟨hrun, htime, fun hreached => by
      have hpos := hreached.1
      omega⟩
    obtain ⟨t, ht⟩ := Option.ne_none_iff_exists'.mp fun hnone =>
      hok (processRecord_eq_none_iff.mp hnone).2
    obtain ⟨news, hnews⟩ := h
    obtain ⟨hcompanies, -, hrun'⟩ := hnews.companies_eq_grow hself hlook ht
    obtain ⟨s', hs', hfold⟩ := ih hplain (InStep.processRecord ⟨news, hnews⟩ ht) hrun'
    refine ⟨s', ?_, ?_⟩
    · rw [Run.exec_cons, ht]
      exact hs'
    · rw [hfold, hcompanies]
      rfl

/-- A run that only the cap can stop. -/
theorem exec_capped (hself : ∀ name, cfg.similar name name = true)
    (hcap : 0 < cfg.maxCompanies) {records : List BedrijfsdataCompany} (hplain : Plain U records)
    (h : ∃ news, InStep cfg companies s news) (hrun : s.stopped = false) :
    ∃ s', Run.exec (processRecord U cfg) s records = some s' ∧ s'.companies =
      Resume.capped (grow U cfg) (cfg.maxCompanies - s.added) s.companies records := by
  induction records generalizing s with
  | nil => exact ⟨s, rfl, (Resume.capped_nil _ _).symm⟩
  | cons bd records ih =>
    obtain ⟨⟨htime, hok⟩, hplain⟩ := List.forall_mem_cons.mp hplain
    obtain ⟨t, ht⟩ := Option.ne_none_iff_exists'.mp fun hnone =>
      hok (processRecord_eq_none_iff.mp hnone).2
    rw [Run.exec_cons, ht, Option.bind_some]
    by_cases hreached : capReached cfg s
    · have hlook : ¬ LooksAt cfg s bd := fun hlook => hlook.2.2 hreached
      obtain ⟨hcompanies, -, hstop⟩ := stopped_of_not_looksAt hlook ht
      refine ⟨t, exec_stopped hstop records, ?_⟩
      rw [Nat.sub_eq_zero_of_le hreached.2]
      exact hcompanies
    · obtain ⟨news, hnews⟩ := h
      obtain ⟨hcompanies, -, hrun'⟩ := hnews.companies_eq_grow hself ⟨hrun, htime, hreached⟩ ht
      obtain ⟨s', hs', hfold⟩ := ih hplain (InStep.processRecord ⟨news, hnews⟩ ht) hrun'
      refine ⟨s', hs', hfold.trans ?_⟩
      rcases added_cases ht with ⟨hsame, hadded⟩ | ⟨hnew, hadded⟩
      · rw [hadded, hsame]
        exact (Resume.capped_cons_of_eq (hcompanies.symm.trans hsame) _ _).symm
      · have hleft : cfg.maxCompanies - s.added = cfg.maxCompanies - (s.added + 1) + 1 := by
          unfold capReached at hreached
          omega
        rw [hcompanies] at hnew
        rw [hadded, hleft, Resume.capped_cons_of_ne hnew, hcompanies]

end

/-! ## Several runs -/

/-- A run over a response, with the cap that is set by then. Whether the time is up is in the
records. -/
structure DiscoveryRun where
  cap : ℕ
  records : List BedrijfsdataCompany

namespace DiscoveryRun

variable (U : Unicode) (cfg : DiscoveryConfig) (companies : List Company) (r : DiscoveryRun)

def after : List Company :=
  processBedrijfsdataResults U { cfg with maxCompanies := r.cap } companies r.records

/-- How many records the run has dealt with when it ends, or when an error leaves it. -/
def dealtWith : ℕ :=
  (Run.last (processRecord U { cfg with maxCompanies := r.cap }) (discoveryStart companies)
    r.records).found

end DiscoveryRun

/-- The table after the runs. -/
def discoveries (U : Unicode) (cfg : DiscoveryConfig) (companies : List Company)
    (runs : List DiscoveryRun) : List Company :=
  runs.foldl (fun companies r => r.after U cfg companies) companies

/-- How far each of the runs has got. -/
def stops (U : Unicode) (cfg : DiscoveryConfig) : List Company → List DiscoveryRun → List ℕ
  | _, [] => []
  | companies, r :: runs =>
    r.dealtWith U cfg companies :: stops U cfg (r.after U cfg companies) runs

/-- The record, in time. -/
def inTime (bd : BedrijfsdataCompany) : BedrijfsdataCompany := { bd with timedOut := false }

section

variable {U : Unicode} {cfg : DiscoveryConfig} {companies : List Company} {r : DiscoveryRun}
  {response : List BedrijfsdataCompany}

theorem foldl_grow_inTime (records : List BedrijfsdataCompany) (companies : List Company) :
    (records.map inTime).foldl (grow U cfg) companies = records.foldl (grow U cfg) companies :=
  List.foldl_map

/-- A run does what the records that it has dealt with do. -/
theorem DiscoveryRun.after_eq (companies : List Company)
    (hself : ∀ name, cfg.similar name name = true)
    (hr : r.records.map inTime = response.map inTime) :
    r.after U cfg companies =
        ((response.map inTime).take (r.dealtWith U cfg companies)).foldl (grow U cfg) companies ∧
      Plain U ((response.map inTime).take (r.dealtWith U cfg companies)) := by
  have hself' (name) : { cfg with maxCompanies := r.cap }.similar name name = true := hself name
  obtain ⟨n, hn, hfold, hok⟩ :=
    companies_eq_foldl (U := U) hself' r.records ⟨[], inStep_start _ companies⟩
  have hdealt : r.dealtWith U cfg companies = n := hn.trans (Nat.zero_add n)
  rw [hdealt, ← hr, ← List.map_take, foldl_grow_inTime]
  refine ⟨hfold, fun bd hbd => ?_⟩
  obtain ⟨bd, hmem, rfl⟩ := List.mem_map.mp hbd
  exact ⟨rfl, hok bd hmem⟩

variable {runs : List DiscoveryRun}

theorem discoveries_eq_foldl (companies : List Company)
    (hself : ∀ name, cfg.similar name name = true)
    (hruns : ∀ r ∈ runs, r.records.map inTime = response.map inTime) :
    discoveries U cfg companies runs = (stops U cfg companies runs).foldl
        (fun companies n => ((response.map inTime).take n).foldl (grow U cfg) companies)
        companies ∧
      ∀ n ∈ stops U cfg companies runs, Plain U ((response.map inTime).take n) := by
  induction runs generalizing companies with
  | nil => exact ⟨rfl, fun _ hn => nomatch hn⟩
  | cons r runs ih =>
    obtain ⟨hr, hruns⟩ := List.forall_mem_cons.mp hruns
    obtain ⟨hafter, hplain⟩ := DiscoveryRun.after_eq (U := U) companies hself hr
    obtain ⟨hfold, hplains⟩ := @ih (r.after U cfg companies) hruns
    refine ⟨?_, List.forall_mem_cons.mpr ⟨hplain, hplains⟩⟩
    show discoveries U cfg (r.after U cfg companies) runs = List.foldl _ _ (stops U cfg _ runs)
    rw [hfold]
    exact congrArg (fun companies => List.foldl _ companies _) hafter

theorem plain_take_foldl_max {records : List BedrijfsdataCompany} {stops : List ℕ} {j : ℕ}
    (hj : Plain U (records.take j)) (h : ∀ n ∈ stops, Plain U (records.take n)) :
    Plain U (records.take (stops.foldl max j)) := by
  induction stops generalizing j with
  | nil => exact hj
  | cons n stops ih =>
    obtain ⟨hn, h⟩ := List.forall_mem_cons.mp h
    refine ih ?_ h
    rcases Nat.le_total n j with hle | hle
    · rwa [Nat.max_eq_left hle]
    · rwa [Nat.max_eq_right hle]

/-- Runs over one response, one after the other, each of them stopped by its time limit, its cap or
an error, at any record. They leave what a single run leaves that nothing stops, over the records up
to the last one that any of them has dealt with. -/
theorem discoveries_eq (hself : ∀ name, cfg.similar name name = true)
    (hruns : ∀ r ∈ runs, r.records.map inTime = response.map inTime) :
    discoveries U cfg companies runs =
      processBedrijfsdataResults U { cfg with maxCompanies := 0 } companies
        ((response.map inTime).take ((stops U cfg companies runs).foldl max 0)) := by
  obtain ⟨hfold, hplains⟩ := discoveries_eq_foldl (U := U) companies hself hruns
  have hself' (name) : { cfg with maxCompanies := 0 }.similar name name = true := hself name
  have hplain := plain_take_foldl_max (j := 0) (fun _ hbd => nomatch hbd) hplains
  obtain ⟨s, hs, hcompanies⟩ :=
    exec_uncapped hself' rfl hplain ⟨[], inStep_start _ companies⟩ rfl
  rw [processBedrijfsdataResults_of_exec hs, hcompanies, hfold,
    (absorbing_grow U cfg hself).foldl_stops]
  rfl

/-- Two companies, and one with an open bracket in its address. -/
def shopsAndBracket : List BedrijfsdataCompany :=
  [{ name := "Acme".toList, domain := some "acme.nl".toList },
   { name := "Beta".toList, domain := some "beta.nl".toList },
   { name := "Gamma".toList, domain := some "http://[gamma.nl".toList }]

/-- The first run adds one company, the second one raises at the third record, and the last one is
out of time there. -/
def brokenOff : List DiscoveryRun :=
  [⟨1, shopsAndBracket⟩, ⟨0, shopsAndBracket⟩,
   ⟨0, shopsAndBracket.map fun bd => { bd with timedOut := bd.name = "Gamma".toList }⟩]

theorem discoveries_eq_brokenOff :
    discoveries .ascii sameName [] brokenOff =
      processBedrijfsdataResults .ascii { sameName with maxCompanies := 0 } []
        ((shopsAndBracket.map inTime).take ((stops .ascii sameName [] brokenOff).foldl max 0)) :=
  discoveries_eq (fun _ => decide_eq_true rfl) (by decide +kernel)

/-- Two runs with a cap add as many companies as one with the sum of the caps, and the same ones. -/
theorem discover_twice {c d : ℕ} (hself : ∀ name, cfg.similar name name = true)
    (hplain : Plain U response) (hc : 0 < c) (hd : 0 < d) :
    processBedrijfsdataResults U { cfg with maxCompanies := d }
        (processBedrijfsdataResults U { cfg with maxCompanies := c } companies response) response =
      processBedrijfsdataResults U { cfg with maxCompanies := c + d } companies response := by
  have hrun (n : ℕ) (hn : 0 < n) (companies : List Company) :
      processBedrijfsdataResults U { cfg with maxCompanies := n } companies response =
        Resume.capped (grow U cfg) n companies response := by
    have hself' (name) : { cfg with maxCompanies := n }.similar name name = true := hself name
    obtain ⟨s, hs, hcompanies⟩ :=
      exec_capped hself' hn hplain ⟨[], inStep_start _ companies⟩ rfl
    rw [processBedrijfsdataResults_of_exec hs, hcompanies]
    rfl
  rw [hrun c hc, hrun d hd, hrun (c + d) (Nat.add_pos_left hc d)]
  exact (absorbing_grow U cfg hself).capped_add c d companies response

end

def threeShops : List BedrijfsdataCompany :=
  [{ name := "Acme".toList, domain := some "acme.nl".toList },
   { name := "Beta".toList, domain := some "beta.nl".toList },
   { name := "Gamma".toList, domain := some "gamma.nl".toList }]

theorem discover_twice_shops :
    processBedrijfsdataResults .ascii { sameName with maxCompanies := 2 }
        (processBedrijfsdataResults .ascii { sameName with maxCompanies := 1 } [] threeShops)
        threeShops =
      processBedrijfsdataResults .ascii { sameName with maxCompanies := 1 + 2 } [] threeShops := by
  refine discover_twice (fun _ => decide_eq_true rfl) (fun bd hbd => ?_) (by decide) (by decide)
  have hok : (normalizeDomain .ascii (bd.domain.getD [])).isOk = true ∧ bd.timedOut = false := by
    revert bd
    decide +kernel
  refine ⟨hok.2, ?_⟩
  rintro ⟨raw, hraw, -, e, he⟩
  rw [Option.mem_def.mp hraw, Option.getD_some, he] at hok
  cases hok.1

end Discovery
end LeadPulse
