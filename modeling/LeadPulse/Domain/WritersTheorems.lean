import LeadPulse.Domain.ValidateTheorems
import LeadPulse.Domain.Writers

/-!
# Stored domains

Is every domain in the table one that `validate_public_domain` accepts? Two things stand in
the way: discovery stores what it is sent without validating it, and the validator looks at
the normal form of its input, which is not always a normal form itself.

* `accepts_normal_iff`: when the normal form of an accepted input is accepted in its turn;
* `storedDomains_iff`: the invariant over all sequences of writes, with the exact condition on
  what they are given;
* `discovery_stores_rejected`: one record is enough to break it.
-/

namespace LeadPulse
namespace Domain

open PyStr IpAddress

/-! ## Normalising a normal form -/

/-- What a second pass of the normaliser leaves of a normal form. -/
def core (normalized : List Char) : List Char :=
  stripPrefix "www.".toList (rstripChar '\n' normalized)

/-- A single label or an internal name. -/
def Internal (host : List Char) : Prop :=
  '.' ∉ host ∨ host ∈ blocked ∨ ".local".toList <:+ host ∨ ".internal".toList <:+ host

instance : DecidablePred Internal := fun host =>
  inferInstanceAs (Decidable ('.' ∉ host ∨ host ∈ blocked ∨ _ ∨ _))

/-- The normal form of the input hides an internal name behind a `www.` or in front of a
line feed. -/
def HidesInternal (U : Unicode) (raw : List Char) : Prop :=
  ∃ v, normalizeDomain U raw = .ok v ∧ Internal (core v)

theorem plain_of_mem {c : Char} (h : c ∈ alnumDash ∨ c = '.') :
    (c.toNat < 128 ∧ c.isUpper = false) ∧ isSpace c = false ∧ c ≠ ':' ∧ c ≠ '/' := by
  have hall : (alnumDash ++ ['.']).all (fun c => (c.toNat < 128 ∧ c.isUpper = false) ∧
      isSpace c = false ∧ c ≠ ':' ∧ c ≠ '/') = true := by decide +kernel
  have hc := List.all_eq_true.mp hall c (by simpa using h)
  exact of_decide_eq_true hc

theorem not_space_of_mem {s : List Char} (h : IsDomain s) {c : Char} (hc : c ∈ s) :
    isSpace c = false :=
  (plain_of_mem (h.chars c hc)).2.1

theorem IsDomain.ne_nil {s : List Char} (h : IsDomain s) : s ≠ [] := by
  obtain ⟨c, _, hc⟩ := h.endsInLetter
  rintro rfl
  simp at hc

/-- Without its `www.`, a host name still ends in a letter. -/
theorem IsDomain.endsInLetter_stripPrefix {s : List Char} (h : IsDomain s) :
    EndsInLetter (stripPrefix "www.".toList s) := by
  have hlast := h.endsInLetter
  rcases stripPrefix_cases "www.".toList s with hs | ⟨-, hs⟩
  · cases ht : (stripPrefix "www.".toList s).getLast? with
    | some d =>
      obtain ⟨c, hc, hlast⟩ := hlast
      rw [hs, List.getLast?_append, ht] at hlast
      obtain rfl : d = c := Option.some.inj hlast
      exact ⟨d, hc, ht⟩
    | none =>
      -- nothing behind the `www.` would leave a dot at the end
      refine absurd ?_ (hlast.getLast?_ne (d := '.') (by decide))
      rw [hs, List.getLast?_append, ht]
      rfl
  · rw [hs]
    exact hlast

/-- The second pass of the normaliser over a host name takes off the `www.`. -/
theorem IsDomain.trimmed {U : Unicode} {s raw : List Char} (h : IsDomain s)
    (hraw : strip raw = s) :
    normalizeDomain U raw = .ok (stripPrefix "www.".toList s) := by
  have hlower : U.lower s = s := U.lower_ascii s fun c hc => (plain_of_mem (h.chars c hc)).1
  have hcolon : ':' ∉ s := h.not_mem (by decide)
  have hslash : '/' ∉ s := h.not_mem (by decide)
  have hurl : ¬ "://".toList <:+: s := fun hin => hcolon (hin.subset (by decide))
  rw [normalizeDomain, hraw, hlower, if_neg hurl, upTo_of_not_mem hslash, trimHost_eq hslash,
    rstripChar_of_getLast? (h.endsInLetter_stripPrefix.getLast?_ne (by decide))]

theorem IsDomain.strip_eq {s : List Char} (h : IsDomain s) : strip s = s :=
  strip_of_ends (fun _ hc => not_space_of_mem h (List.mem_of_mem_head? hc))
    (fun _ hc => not_space_of_mem h (List.mem_of_getLast? hc))

theorem IsDomain.strip_newline {s : List Char} (h : IsDomain s) : strip (s ++ ['\n']) = s :=
  strip_append_space h.ne_nil (fun _ hc => not_space_of_mem h (List.mem_of_mem_head? hc))
    (fun _ hc => not_space_of_mem h (List.mem_of_getLast? hc)) (by decide)

theorem two_le_length_splitOn {c : Char} {s : List Char} (h : c ∈ s) :
    2 ≤ (s.splitOn c).length := by
  obtain ⟨a, b, rfl⟩ := List.append_of_mem h
  rw [List.splitOn_append_cons_self, List.length_append]
  have ha := List.length_pos_iff.mpr (List.splitOn_ne_nil c a)
  have hb := List.length_pos_iff.mpr (List.splitOn_ne_nil c b)
  omega

/-- A host name without its `www.` is a host name if there is a dot left. -/
theorem IsDomain.stripPrefix {s : List Char} (h : IsDomain s)
    (hdot : '.' ∈ PyStr.stripPrefix "www.".toList s) :
    IsDomain (PyStr.stripPrefix "www.".toList s) := by
  rcases stripPrefix_cases "www.".toList s with hs | ⟨-, hs⟩
  · generalize PyStr.stripPrefix "www.".toList s = t at hs hdot
    have hsplit : s.splitOn '.' = "www".toList :: t.splitOn '.' := by
      have hwww : '.' ∉ "www".toList := by decide
      rw [hs]
      exact List.splitOn_append_cons_self_of_not_mem hwww t
    have hne := List.splitOn_ne_nil '.' t
    refine ⟨fun l hl => h.labels l ?_, two_le_length_splitOn hdot, ?_⟩
    · rw [hsplit, List.dropLast_cons_of_ne_nil hne]
      exact List.mem_cons_of_mem _ hl
    · obtain ⟨u, hu, htld⟩ := h.tld
      rw [hsplit, List.getLast?_cons_of_ne_nil hne] at hu
      exact ⟨u, hu, htld⟩
  · rw [hs]
    exact h

theorem IsDomain.dot_mem {s : List Char} (h : IsDomain s) : '.' ∈ s := by
  by_contra hn
  have hdot := h.dot
  rw [List.splitOn_eq_singleton hn] at hdot
  simp at hdot

/-- Of a host name without its `www.`, the validator checks just that it is not internal. -/
theorem IsDomain.checkNormalized_iff {s : List Char} (h : IsDomain s) :
    checkNormalized (PyStr.stripPrefix "www.".toList s) = none ↔
      ¬ Internal (PyStr.stripPrefix "www.".toList s) := by
  rw [checkNormalized_eq_none]
  constructor
  · rintro ⟨-, -, hblocked, hlocal, hinternal, hmatch⟩ hint
    -- what the expression matches has a dot, so it is no single label
    have hdot : '.' ∈ PyStr.stripPrefix "www.".toList s := by
      rcases hmatch with hm | ⟨t, -, ht⟩
      · exact (mem_domainRe.mp hm).dot_mem
      · refine absurd ?_ (h.endsInLetter_stripPrefix.getLast?_ne (d := '\n') (by decide))
        rw [ht, List.getLast?_concat]
    rcases hint with hint | hint | hint | hint
    · exact hint hdot
    · exact hblocked hint
    · exact hlocal hint
    · exact hinternal hint
  · intro hint
    simp only [Internal, not_or, not_not] at hint
    obtain ⟨hdot, hblocked, hlocal, hinternal⟩ := hint
    have hdomain := h.stripPrefix hdot
    -- its last letter tells it from an IP address
    obtain ⟨c, hc, hlast⟩ := hdomain.endsInLetter
    have hletter : ∀ c ∈ lowerAlpha, c ≠ '.' ∧ c.isDigit = false := by
      simpa using (by decide +kernel : lowerAlpha.all (fun c => c ≠ '.' ∧ c.isDigit = false) = true)
    refine ⟨hdomain.ne_nil, ?_, hblocked, hlocal, hinternal, Or.inl (mem_domainRe.mpr hdomain)⟩
    exact ipAddress_eq_none (hdomain.not_mem (by decide))
      ⟨c, List.mem_of_getLast? hlast, hletter c hc⟩

/-- When the normal form of an accepted input is accepted in its turn: when it hides no
internal name. -/
theorem accepts_normal_iff {U : Unicode} {raw v : List Char} (h : Accepts U raw)
    (hv : normalizeDomain U raw = .ok v) : Accepts U v ↔ ¬ HidesInternal U raw := by
  have hhides : HidesInternal U raw ↔ Internal (core v) := by
    simp [HidesInternal, hv]
  obtain ⟨w, hw, hcheck⟩ := accepts_iff.mp h
  obtain rfl : w = v := Except.ok.inj (hw.symm.trans hv)
  obtain ⟨-, -, -, -, -, hmatch⟩ := checkNormalized_eq_none.mp hcheck
  -- either way the normal form is a host name, up to a line feed
  obtain ⟨s, hs, hstrip, hcore⟩ : ∃ s, IsDomain s ∧ strip w = s ∧
      core w = PyStr.stripPrefix "www.".toList s := by
    rcases hmatch with hm | ⟨t, hm, rfl⟩
    · have hw := mem_domainRe.mp hm
      refine ⟨w, hw, hw.strip_eq, ?_⟩
      rw [core, rstripChar_of_getLast? (hw.endsInLetter.getLast?_ne (by decide))]
    · have ht := mem_domainRe.mp hm
      have hr := rstripChar_append_replicate
        (ht.endsInLetter.getLast?_ne (d := '\n') (by decide)) 1
      exact ⟨t, ht, ht.strip_newline, congrArg _ hr⟩
  rw [hhides, hcore, accepts_iff, ← hs.checkNormalized_iff, hs.trimmed hstrip]
  simp

/-! ## What each writer stores -/

def AllAccepted (U : Unicode) (companies : List Company) : Prop :=
  ∀ c ∈ companies, Accepts U c.domain

/-- Input that is turned down, or of which the stored domain is accepted again. -/
def SafeInput (U : Unicode) (raw : List Char) : Prop := Accepts U raw → ¬ HidesInternal U raw

/-- The database takes a new row with this name and domain. -/
def Fits (companies : List Company) (name domain : List Char) (othersFit : Bool) : Prop :=
  othersFit = true ∧ name.length ≤ 255 ∧ domain.length ≤ 255 ∧ ¬ taken companies name domain

section

variable {U : Unicode} {cs cs' : List Company}

theorem insertCompany_eq_some_iff {name domain : List Char} {status : CompanyStatus} {fit : Bool} :
    insertCompany cs name domain status fit = some cs' ↔ Fits cs name domain fit ∧
      cs' = cs ++ [{ id := cs.length, name := name, domain := domain, status := status }] := by
  unfold insertCompany
  split
  · rename_i hfits
    rw [Option.some.injEq, eq_comm]
    exact (and_iff_right hfits).symm
  · rename_i hunfit
    refine ⟨fun h => ?_, fun h => absurd h.1 hunfit⟩
    cases h

/-- A table with a new row is in order exactly if the new domain is. -/
theorem AllAccepted.insertCompany_iff {name domain : List Char} {status : CompanyStatus}
    {fit : Bool} (h : AllAccepted U cs)
    (hi : insertCompany cs name domain status fit = some cs') :
    AllAccepted U cs' ↔ Accepts U domain := by
  obtain ⟨-, rfl⟩ := insertCompany_eq_some_iff.mp hi
  constructor
  · exact fun hall => hall _ (List.mem_append_right _ (List.mem_singleton_self _))
  · intro hd c hc
    rcases List.mem_append.mp hc with hc | hc
    · exact h c hc
    · obtain rfl := List.mem_singleton.mp hc
      exact hd

/-- `checkedDomain` returns the normal form of what is accepted. -/
theorem checkedDomain_ok_iff {raw v : List Char} :
    checkedDomain U raw = .ok v ↔ Accepts U raw ∧ normalizeDomain U raw = .ok v := by
  unfold checkedDomain
  constructor
  · intro h
    split at h
    · cases h
    · rename_i hvalid hnorm
      cases h
      exact ⟨hvalid, hnorm⟩
    · cases h
  · rintro ⟨hvalid, hnorm⟩
    rw [show validatePublicDomain U raw = .ok none from hvalid, hnorm]

theorem exists_normal_of_accepts {raw : List Char} (h : Accepts U raw) :
    ∃ v, normalizeDomain U raw = .ok v := by
  obtain ⟨v, hv, -⟩ := accepts_iff.mp h
  exact ⟨v, hv⟩

/-- The stored form of what is accepted. -/
theorem accepts_iff_safeInput {raw v : List Char} (haccepts : Accepts U raw)
    (hv : normalizeDomain U raw = .ok v) : Accepts U v ↔ SafeInput U raw := by
  rw [accepts_normal_iff haccepts hv]
  exact ⟨fun h _ => h, fun h => h haccepts⟩

/-! ### `create_company` -/

/-- Only its domain can keep the company out. -/
def Creatable (U : Unicode) (companies : List Company) (body : CompanyCreate) : Prop :=
  fieldFits body.name ∧ fieldFits body.domain ∧
    ∀ v, normalizeDomain U body.domain = .ok v → Fits companies body.name v body.othersFit

theorem createCompany_ok_iff {body : CompanyCreate} :
    createCompany U cs body = .ok cs' ↔ Creatable U cs body ∧ Accepts U body.domain ∧
      ∃ v, normalizeDomain U body.domain = .ok v ∧
        insertCompany cs body.name v body.status body.othersFit = some cs' := by
  constructor
  · intro hc
    unfold createCompany at hc
    split at hc
    · cases hc
    rename_i hfields
    rw [not_not] at hfields
    split at hc
    · cases hc
    rename_i v hv
    obtain ⟨haccepts, hnorm⟩ := checkedDomain_ok_iff.mp hv
    split at hc
    · cases hc
    split at hc
    · rename_i stored hi
      cases hc
      refine ⟨⟨hfields.1, hfields.2, fun w hw => ?_⟩, haccepts, v, hnorm, hi⟩
      obtain rfl : v = w := Except.ok.inj (hnorm.symm.trans hw)
      exact (insertCompany_eq_some_iff.mp hi).1
    · cases hc
  · rintro ⟨⟨hname, hdomain, hfits⟩, haccepts, v, hnorm, hi⟩
    have hfree : ¬ taken cs body.name v := (hfits v hnorm).2.2.2
    unfold createCompany
    rw [if_neg (not_not.mpr ⟨hname, hdomain⟩), checkedDomain_ok_iff.mpr ⟨haccepts, hnorm⟩]
    dsimp only
    rw [if_neg hfree, hi]

theorem AllAccepted.createCompany_iff {body : CompanyCreate} (h : AllAccepted U cs) :
    AllAccepted U ((createCompany U cs body).toOption.getD cs) ↔
      (Creatable U cs body → SafeInput U body.domain) := by
  cases hc : createCompany U cs body with
  | ok cs' =>
    obtain ⟨hcreatable, haccepts, v, hnorm, hi⟩ := createCompany_ok_iff.mp hc
    have hstored : AllAccepted U cs' ↔ SafeInput U body.domain :=
      (h.insertCompany_iff hi).trans (accepts_iff_safeInput haccepts hnorm)
    exact hstored.trans ⟨fun hsafe _ => hsafe, fun hsafe => hsafe hcreatable⟩
  | error e =>
    refine ⟨fun _ hcreatable haccepts => ?_, fun _ => h⟩
    -- a company that only its domain can keep out, and whose domain is accepted, is stored
    obtain ⟨v, hnorm⟩ := exists_normal_of_accepts haccepts
    rw [createCompany_ok_iff.mpr ⟨hcreatable, haccepts, v, hnorm,
      insertCompany_eq_some_iff.mpr ⟨hcreatable.2.2 v hnorm, rfl⟩⟩] at hc
    cases hc

/-! ### `update_company` -/

/-- The name that the company has after the update. -/
def updatedName (company : Company) (body : CompanyUpdate) : List Char :=
  body.name.join.getD company.name

/-- Only its domain can keep the update out. -/
structure Updatable (U : Unicode) (companies : List Company) (companyId : ℕ)
    (body : CompanyUpdate) (company : Company) : Prop where
  found : companies.find? (·.id = companyId) = some company
  live : company.status ≠ .archived
  fieldsFit : (∀ s ∈ body.name.join, fieldFits s) ∧ ∀ s ∈ body.domain.join, fieldFits s
  notNull : body.name ≠ some none ∧ body.status ≠ some none
  othersFit : body.othersFit = true
  domainFits : ∀ raw ∈ body.domain.join, ∀ v, normalizeDomain U raw = .ok v → v.length ≤ 255 ∧
    (updatedName company body ≠ company.name ∨ v ≠ company.domain →
      ¬ taken (companies.filter (·.id ≠ companyId)) (updatedName company body) v)

/-- The rows after an update of one of them. -/
def writeRow (companies : List Company) (companyId : ℕ) (name domain : List Char)
    (status : CompanyStatus) : List Company :=
  companies.map fun c =>
    if c.id = companyId then { c with name := name, domain := domain, status := status } else c

/-- What an update does: it writes one row of the table, with a domain that `updatedDomain`
gives. -/
theorem updateCompany_ok {companyId : ℕ} {body : CompanyUpdate}
    (hc : updateCompany U cs companyId body = .ok cs') :
    ∃ company name domain status, Updatable U cs companyId body company ∧
      updatedDomain U company body = .ok domain ∧
      cs' = writeRow cs companyId name domain status := by
  unfold updateCompany at hc
  split at hc
  · cases hc
  rename_i hfields
  rw [not_not] at hfields
  split at hc
  · cases hc
  rename_i company hfind
  split at hc
  · cases hc
  rename_i hlive
  split at hc
  · cases hc
  · rename_i domain name status hdomain hname hstatus
    split at hc
    · cases hc
    rename_i hfree
    split at hc
    · cases hc
    rename_i hfits
    rw [not_not] at hfits
    cases hc
    refine ⟨company, name, domain, status, ⟨hfind, hlive, hfields, ⟨?_, ?_⟩, hfits.1, ?_⟩,
      hdomain, rfl⟩
    · intro hnull
      rw [hnull] at hname
      cases hname
    · intro hnull
      rw [hnull] at hstatus
      cases hstatus
    · intro raw hraw v hv
      have hnamed : updatedName company body = name := by
        unfold updatedName
        cases hn : body.name with
        | none =>
          rw [hn] at hname
          exact Option.some.inj hname
        | some given =>
          rw [hn] at hname
          obtain rfl : given = some name := hname
          rfl
      -- the domain that is stored is the normal form of the one that was sent
      have hsent : body.domain = some (some raw) := by
        simpa [Option.join_eq_some_iff] using hraw
      obtain rfl : domain = v := by
        unfold updatedDomain at hdomain
        rw [hsent] at hdomain
        exact Except.ok.inj ((checkedDomain_ok_iff.mp hdomain).2.symm.trans hv)
      refine ⟨hfits.2, fun hchanges htaken => hfree ⟨?_, ?_⟩⟩
      · rwa [← hnamed]
      · rwa [← hnamed]
  · cases hc

/-- An update with an accepted domain is stored if only the domain can keep it out. -/
theorem updateCompany_of_updatable {companyId : ℕ} {body : CompanyUpdate} {company : Company}
    {raw v : List Char} (h : Updatable U cs companyId body company)
    (hraw : body.domain = some (some raw)) (haccepts : Accepts U raw)
    (hv : normalizeDomain U raw = .ok v) : ∃ status, updateCompany U cs companyId body =
      .ok (writeRow cs companyId (updatedName company body) v status) := by
  have hname : body.name.getD (some company.name) = some (updatedName company body) := by
    unfold updatedName
    cases hn : body.name with
    | none => rfl
    | some given =>
      obtain ⟨name, rfl⟩ := Option.ne_none_iff_exists'.mp fun hnull =>
        h.notNull.1 (hn.trans (congrArg some hnull))
      rfl
  have hstatus : ∃ status, body.status.getD (some company.status) = some status := by
    cases hn : body.status with
    | none => exact ⟨_, rfl⟩
    | some given =>
      refine Option.ne_none_iff_exists'.mp fun hnull => ?_
      exact h.notNull.2 (hn.trans (congrArg some hnull))
  obtain ⟨status, hstatus⟩ := hstatus
  have hdomain : updatedDomain U company body = .ok v := by
    unfold updatedDomain
    rw [hraw]
    exact checkedDomain_ok_iff.mpr ⟨haccepts, hv⟩
  obtain ⟨hlength, hfree⟩ := h.domainFits raw (by rw [hraw]; rfl) v hv
  refine ⟨status, ?_⟩
  unfold updateCompany
  rw [if_neg (not_not.mpr h.fieldsFit), h.found]
  dsimp only
  rw [if_neg h.live, hdomain, hname, hstatus]
  dsimp only
  rw [if_neg fun htaken => hfree htaken.1 htaken.2, if_neg (not_not.mpr ⟨h.othersFit, hlength⟩)]
  rfl

theorem AllAccepted.writeRow {companyId : ℕ} {name domain : List Char} {status : CompanyStatus}
    (h : AllAccepted U cs) (hd : Accepts U domain) :
    AllAccepted U (writeRow cs companyId name domain status) := by
  intro c hc
  obtain ⟨row, hrow, rfl⟩ := List.mem_map.mp hc
  split
  · exact hd
  · exact h row hrow

theorem AllAccepted.updateCompany_iff {companyId : ℕ} {body : CompanyUpdate}
    (h : AllAccepted U cs) :
    AllAccepted U ((updateCompany U cs companyId body).toOption.getD cs) ↔
      ∀ company, Updatable U cs companyId body company →
        ∀ raw ∈ body.domain.join, SafeInput U raw := by
  constructor
  · intro hafter company hupdatable raw hraw haccepts
    have hsent : body.domain = some (some raw) := by
      simpa [Option.join_eq_some_iff] using hraw
    obtain ⟨v, hv⟩ := exists_normal_of_accepts haccepts
    obtain ⟨status, hc⟩ := updateCompany_of_updatable hupdatable hsent haccepts hv
    rw [hc] at hafter
    -- the row of the company has the new domain
    have hrow := hafter _ (List.mem_map_of_mem (List.mem_of_find?_eq_some hupdatable.found))
    have hid : company.id = companyId := by simpa using List.find?_some hupdatable.found
    rw [if_pos hid] at hrow
    exact (accepts_normal_iff haccepts hv).mp hrow
  · intro hsafe
    cases hc : updateCompany U cs companyId body with
    | error e => exact h
    | ok cs' =>
      obtain ⟨company, name, domain, status, hupdatable, hdomain, rfl⟩ := updateCompany_ok hc
      refine h.writeRow ?_
      unfold updatedDomain at hdomain
      split at hdomain
      · cases hdomain
        exact h company (List.mem_of_find?_eq_some hupdatable.found)
      · cases hdomain
      · rename_i raw hraw
        obtain ⟨haccepts, hv⟩ := checkedDomain_ok_iff.mp hdomain
        exact (accepts_iff_safeInput haccepts hv).mpr
          (hsafe company hupdatable raw (by rw [hraw]; rfl))

/-! ### `import_companies` -/

/-- Only its domain can keep the row out. -/
def Importable (U : Unicode) (colMap : List (String × ℕ)) (s : ImportState) (row : ImportRow) :
    Prop :=
  cellStr colMap row "name" ≠ [] ∧ rowDomain colMap row ≠ [] ∧
    ∀ v, normalizeDomain U (rowDomain colMap row) = .ok v →
      (cellStr colMap row "name", v) ∉ s.pairs ∧
        Fits s.companies (cellStr colMap row "name") v row.othersFit

/-- The condition on a row, in the state in which its turn comes. -/
def SafeRow (U : Unicode) (colMap : List (String × ℕ)) (s : ImportState) (row : ImportRow) : Prop :=
  Importable U colMap s row → SafeInput U (rowDomain colMap row)

/-- What a row does to the table: nothing, unless it can be imported and its domain is accepted. -/
theorem importRow_companies (U : Unicode) (colMap : List (String × ℕ)) (s : ImportState)
    (row : ImportRow) :
    (importRow U colMap s row).companies = s.companies ∧
        (Importable U colMap s row → ¬ Accepts U (rowDomain colMap row)) ∨
      Importable U colMap s row ∧ Accepts U (rowDomain colMap row) ∧
        ∃ v, normalizeDomain U (rowDomain colMap row) = .ok v ∧
          insertCompany s.companies (cellStr colMap row "name") v .discovered row.othersFit =
            some (importRow U colMap s row).companies := by
  unfold importRow
  dsimp only
  split
  · rename_i hcells
    exact .inl ⟨rfl, fun hrow _ => hcells.elim hrow.1 hrow.2.1⟩
  rename_i hcells
  rw [not_or] at hcells
  split
  · rename_i hrejected
    refine .inl ⟨rfl, fun _ haccepts => ?_⟩
    rw [show validatePublicDomain U (rowDomain colMap row) = .ok none from haccepts] at hrejected
    cases hrejected
  · rename_i v haccepts hv
    split
    · rename_i hpair
      exact .inl ⟨rfl, fun hrow _ => (hrow.2.2 v hv).1 hpair⟩
    rename_i hpair
    split
    · rename_i stored hi
      refine .inr ⟨⟨hcells.1, hcells.2, fun w hw => ?_⟩, haccepts, v, hv, hi⟩
      obtain rfl : v = w := Except.ok.inj (hv.symm.trans hw)
      exact ⟨hpair, (insertCompany_eq_some_iff.mp hi).1⟩
    · rename_i hi
      refine .inl ⟨rfl, fun hrow _ => ?_⟩
      rw [insertCompany_eq_some_iff.mpr ⟨(hrow.2.2 v hv).2, rfl⟩] at hi
      cases hi
  · rename_i hraised
    refine .inl ⟨rfl, fun _ haccepts => ?_⟩
    obtain ⟨v, hv⟩ := exists_normal_of_accepts haccepts
    exact hraised v haccepts hv

theorem AllAccepted.importRow_iff {colMap : List (String × ℕ)} {s : ImportState} {row : ImportRow}
    (h : AllAccepted U s.companies) :
    AllAccepted U (importRow U colMap s row).companies ↔ SafeRow U colMap s row := by
  rcases importRow_companies U colMap s row with ⟨hsame, hno⟩ | ⟨hrow, haccepts, v, hv, hi⟩
  · rw [hsame]
    exact ⟨fun _ hrow haccepts => absurd haccepts (hno hrow), fun _ => h⟩
  · rw [h.insertCompany_iff hi, accepts_iff_safeInput haccepts hv]
    exact ⟨fun hsafe _ => hsafe, fun hsafe => hsafe hrow⟩

/-- The import never takes a row out of the table. -/
theorem companies_sub_importRow (colMap : List (String × ℕ)) (s : ImportState) (row : ImportRow) :
    ∀ c ∈ s.companies, c ∈ (importRow U colMap s row).companies := by
  intro c hc
  rcases importRow_companies U colMap s row with ⟨hsame, -⟩ | ⟨-, -, v, -, hi⟩
  · rwa [hsame]
  · rw [(insertCompany_eq_some_iff.mp hi).2]
    exact List.mem_append_left _ hc

/-- The body of the row loop as a step. -/
def importStep (U : Unicode) (colMap : List (String × ℕ)) (s : ImportState) (row : ImportRow) :
    Option ImportState :=
  some (importRow U colMap s row)

theorem AllAccepted.importCompanies_iff {colMap : List (String × ℕ)} {rows : List ImportRow}
    (h : AllAccepted U cs) : AllAccepted U (importCompanies U cs colMap rows).companies ↔
      Run.AllSteps (importStep U colMap) (SafeRow U colMap)
        { companies := cs, pairs := existingPairs cs } (rows.take 500) := by
  have hfold : importCompanies U cs colMap rows = Run.last (importStep U colMap)
      { companies := cs, pairs := existingPairs cs } (rows.take 500) :=
    (Run.last_total (importRow U colMap) _ _).symm
  rw [hfold]
  have hlast : Run.AllStates (importStep U colMap) (fun s => AllAccepted U s.companies)
      { companies := cs, pairs := existingPairs cs } (rows.take 500) ↔
      AllAccepted U (Run.last (importStep U colMap)
        { companies := cs, pairs := existingPairs cs } (rows.take 500)).companies := by
    refine Run.allStates_iff_last fun s row s' hs' hafter c hc => ?_
    rw [← Option.some.inj hs'] at hafter
    exact hafter c (companies_sub_importRow colMap s row c hc)
  refine hlast.symm.trans (Run.allStates_iff_allSteps
    (I := fun s : ImportState => AllAccepted U s.companies)
    (fun _ hs => hs) (fun s row s' hs hsafe hs' => ?_) (fun s row s' hs hunsafe hs' => ?_) h _)
  · rw [← Option.some.inj hs']
    exact hs.importRow_iff.mpr hsafe
  · rw [← Option.some.inj hs']
    exact mt hs.importRow_iff.mp hunsafe

end

/-! ### Discovery -/

/-- The turn of the record comes. -/
def LooksAt (cfg : DiscoveryConfig) (s : DiscoveryState) (bd : BedrijfsdataCompany) : Prop :=
  s.stopped = false ∧ bd.timedOut = false ∧ ¬ capReached cfg s

def DiscoveryState.skip (s : DiscoveryState) : DiscoveryState :=
  { s with found := s.found + 1, skipped := s.skipped + 1 }

/-- What may become of a record, and the state that it leaves. -/
inductive RecordOutcome (U : Unicode) (cfg : DiscoveryConfig) (s : DiscoveryState)
    (bd : BedrijfsdataCompany) : DiscoveryState → Prop
  | stopped (hstop : s.stopped = true) : RecordOutcome U cfg s bd s
  | stops {s' : DiscoveryState} (hrun : s.stopped = false)
      (hstop : bd.timedOut = true ∨ capReached cfg s) (errors : List String)
      (hs' : s' = { s with stopped := true, errors := errors }) : RecordOutcome U cfg s bd s'
  | noDomain (hlook : LooksAt cfg s bd) (hdomain : ∀ raw ∈ bd.domain, raw = []) :
      RecordOutcome U cfg s bd s.skip
  | duplicate {raw v : List Char} (hlook : LooksAt cfg s bd) (hraw : bd.domain = some raw)
      (hne : raw ≠ []) (hv : normalizeDomain U raw = .ok v) (hdup : isDuplicate cfg s bd.name v) :
      RecordOutcome U cfg s bd s.skip
  | failed {raw v : List Char} (hlook : LooksAt cfg s bd) (hraw : bd.domain = some raw)
      (hne : raw ≠ []) (hv : normalizeDomain U raw = .ok v)
      (hnew : ¬ isDuplicate cfg s bd.name v)
      (hins : insertCompany s.companies bd.name v .discovered bd.othersFit = none) :
      RecordOutcome U cfg s bd s.skip
  | added {raw v : List Char} {companies : List Company} (hlook : LooksAt cfg s bd)
      (hraw : bd.domain = some raw) (hne : raw ≠ []) (hv : normalizeDomain U raw = .ok v)
      (hnew : ¬ isDuplicate cfg s bd.name v)
      (hins : insertCompany s.companies bd.name v .discovered bd.othersFit = some companies) :
      RecordOutcome U cfg s bd
        { s with companies := companies, added := s.added + 1, found := s.found + 1,
                 pairs := s.pairs ++ [(bd.name, v)], names := s.names ++ [bd.name] }

/-- The domain of the record is one that `normalize_domain` raises for. -/
def Malformed (U : Unicode) (bd : BedrijfsdataCompany) : Prop :=
  ∃ raw ∈ bd.domain, raw ≠ [] ∧ ∃ e, normalizeDomain U raw = .error e

/-- The cases of the loop's body. -/
theorem processRecord_outcome {U : Unicode} {cfg : DiscoveryConfig} {s s' : DiscoveryState}
    {bd : BedrijfsdataCompany} (hs : processRecord U cfg s bd = some s') :
    RecordOutcome U cfg s bd s' := by
  unfold processRecord at hs
  split at hs
  · rename_i hstop
    obtain rfl := Option.some.inj hs
    exact .stopped hstop
  rename_i hrun
  have hrun : s.stopped = false := by simpa using hrun
  split at hs
  · rename_i htime
    exact .stops hrun (Or.inl htime) _ (Option.some.inj hs).symm
  rename_i htime
  have htime : bd.timedOut = false := by simpa using htime
  split at hs
  · rename_i hcap
    exact .stops hrun (Or.inr hcap) s.errors (Option.some.inj hs).symm
  rename_i hcap
  dsimp only at hs
  split at hs
  · rename_i hnone
    obtain rfl := Option.some.inj hs
    refine .noDomain ⟨hrun, htime, hcap⟩ fun raw hraw => ?_
    rw [hnone] at hraw
    cases hraw
  · rename_i hnil
    obtain rfl := Option.some.inj hs
    refine .noDomain ⟨hrun, htime, hcap⟩ fun raw hraw => ?_
    rw [hnil] at hraw
    exact (Option.some.inj hraw).symm
  rename_i raw hne hraw
  split at hs
  · cases hs
  rename_i v hv
  split at hs
  · rename_i hdup
    obtain rfl := Option.some.inj hs
    exact .duplicate ⟨hrun, htime, hcap⟩ hraw hne hv hdup
  rename_i hnew
  split at hs
  · rename_i companies hins
    obtain rfl := Option.some.inj hs
    exact .added ⟨hrun, htime, hcap⟩ hraw hne hv hnew hins
  · rename_i hins
    obtain rfl := Option.some.inj hs
    exact .failed ⟨hrun, htime, hcap⟩ hraw hne hv hnew hins

/-- The run is left by an error exactly at a malformed domain whose turn comes. -/
theorem processRecord_eq_none_iff {U : Unicode} {cfg : DiscoveryConfig} {s : DiscoveryState}
    {bd : BedrijfsdataCompany} :
    processRecord U cfg s bd = none ↔ LooksAt cfg s bd ∧ Malformed U bd := by
  constructor
  · intro hs
    unfold processRecord at hs
    split at hs
    · cases hs
    rename_i hrun
    split at hs
    · cases hs
    rename_i htime
    split at hs
    · cases hs
    rename_i hcap
    dsimp only at hs
    split at hs
    · cases hs
    · cases hs
    rename_i raw hne hraw
    split at hs
    · rename_i e he
      exact ⟨⟨by simpa using hrun, by simpa using htime, hcap⟩, raw, hraw, hne, e, he⟩
    · split at hs
      · cases hs
      · split at hs
        · cases hs
        · cases hs
  · rintro ⟨⟨hrun, htime, hcap⟩, raw, hraw, hne, e, he⟩
    obtain ⟨c, cs, rfl⟩ := List.exists_cons_of_ne_nil hne
    unfold processRecord
    rw [hrun, htime, if_neg Bool.false_ne_true, if_neg Bool.false_ne_true, if_neg hcap,
      Option.mem_def.mp hraw]
    simp only [he]

/-- Discovery stores the record with the domain `v`: its turn comes, and it is neither a duplicate
nor refused by the database. -/
structure Storable (U : Unicode) (cfg : DiscoveryConfig) (s : DiscoveryState)
    (bd : BedrijfsdataCompany) (v : List Char) : Prop where
  looksAt : LooksAt cfg s bd
  normal : ∃ raw ∈ bd.domain, raw ≠ [] ∧ normalizeDomain U raw = .ok v
  new : ¬ isDuplicate cfg s bd.name v
  fits : Fits s.companies bd.name v bd.othersFit

/-- The check that is missing: what is stored is accepted. -/
def SafeRecord (U : Unicode) (cfg : DiscoveryConfig) (s : DiscoveryState)
    (bd : BedrijfsdataCompany) : Prop :=
  ∀ v, Storable U cfg s bd v → Accepts U v

section

variable {U : Unicode} {cfg : DiscoveryConfig} {s s' : DiscoveryState} {bd : BedrijfsdataCompany}

theorem Storable.eq_normal {raw v w : List Char} (h : Storable U cfg s bd w)
    (hraw : bd.domain = some raw) (hv : normalizeDomain U raw = .ok v) : v = w := by
  obtain ⟨raw', hraw', -, hw⟩ := h.normal
  obtain rfl : raw = raw' := Option.some.inj (hraw.symm.trans hraw')
  exact Except.ok.inj (hv.symm.trans hw)

/-- What a record does to the table: nothing, unless it can be stored. -/
theorem processRecord_companies (hs : processRecord U cfg s bd = some s') :
    s'.companies = s.companies ∧ (∀ v, ¬ Storable U cfg s bd v) ∨
      ∃ v, Storable U cfg s bd v ∧
        insertCompany s.companies bd.name v .discovered bd.othersFit = some s'.companies := by
  cases processRecord_outcome hs with
  | stopped hstop =>
    refine .inl ⟨rfl, fun v h => ?_⟩
    rw [h.looksAt.1] at hstop
    cases hstop
  | stops hrun hstop errors hs' =>
    rw [hs']
    refine .inl ⟨rfl, fun v h => hstop.elim (fun htime => ?_) h.looksAt.2.2⟩
    rw [h.looksAt.2.1] at htime
    cases htime
  | noDomain hlook hdomain =>
    refine .inl ⟨rfl, fun v h => ?_⟩
    obtain ⟨raw, hraw, hne, -⟩ := h.normal
    exact hne (hdomain raw hraw)
  | @duplicate raw v hlook hraw hne hv hdup =>
    refine .inl ⟨rfl, fun w h => h.new ?_⟩
    obtain rfl := h.eq_normal hraw hv
    exact hdup
  | @failed raw v hlook hraw hne hv hnew hins =>
    refine .inl ⟨rfl, fun w h => ?_⟩
    obtain rfl := h.eq_normal hraw hv
    rw [insertCompany_eq_some_iff.mpr ⟨h.fits, rfl⟩] at hins
    cases hins
  | @added raw v companies hlook hraw hne hv hnew hins =>
    exact .inr ⟨v, ⟨hlook, ⟨raw, hraw, hne, hv⟩, hnew, (insertCompany_eq_some_iff.mp hins).1⟩, hins⟩

theorem Storable.unique {v w : List Char} (hv : Storable U cfg s bd v)
    (hw : Storable U cfg s bd w) : v = w := by
  obtain ⟨raw, hraw, -, hv⟩ := hv.normal
  exact hw.eq_normal hraw hv

theorem AllAccepted.processRecord_iff (h : AllAccepted U s.companies)
    (hs : processRecord U cfg s bd = some s') :
    AllAccepted U s'.companies ↔ SafeRecord U cfg s bd := by
  rcases processRecord_companies hs with ⟨hsame, hno⟩ | ⟨v, hstorable, hi⟩
  · rw [hsame]
    exact ⟨fun _ v hstorable => absurd hstorable (hno v), fun _ => h⟩
  · rw [h.insertCompany_iff hi]
    constructor
    · intro hv w hw
      rwa [hw.unique hstorable]
    · exact fun hsafe => hsafe v hstorable

theorem companies_sub_processRecord (hs : processRecord U cfg s bd = some s') :
    ∀ c ∈ s.companies, c ∈ s'.companies := by
  intro c hc
  rcases processRecord_companies hs with ⟨hsame, -⟩ | ⟨v, -, hi⟩
  · rwa [hsame]
  · rw [(insertCompany_eq_some_iff.mp hi).2]
    exact List.mem_append_left _ hc

theorem AllAccepted.discover_iff {cs : List Company} {records : List BedrijfsdataCompany}
    (h : AllAccepted U cs) : AllAccepted U (processBedrijfsdataResults U cfg cs records) ↔
      Run.AllSteps (processRecord U cfg) (SafeRecord U cfg) (discoveryStart cs) records := by
  have hlast : Run.AllStates (processRecord U cfg) (fun s => AllAccepted U s.companies)
      (discoveryStart cs) records ↔
      AllAccepted U (Run.last (processRecord U cfg) (discoveryStart cs) records).companies :=
    Run.allStates_iff_last fun s bd s' hs' hafter c hc =>
      hafter c (companies_sub_processRecord hs' c hc)
  exact hlast.symm.trans (Run.allStates_iff_allSteps (I := fun s => AllAccepted U s.companies)
    (fun _ hs => hs) (fun s bd s' hs hsafe hs' => (hs.processRecord_iff hs').mpr hsafe)
    (fun s bd s' hs hunsafe hs' => mt (hs.processRecord_iff hs').mp hunsafe) h records)

end

/-! ## All writers -/

/-- The condition on a write: what only its domain can keep out has a domain of which the stored
form is accepted again, and what discovery stores is accepted to begin with. -/
def SafeWrite (U : Unicode) (companies : List Company) : Write → Prop
  | .create body => Creatable U companies body → SafeInput U body.domain
  | .update companyId body => ∀ company, Updatable U companies companyId body company →
      ∀ raw ∈ body.domain.join, SafeInput U raw
  | .importRows colMap rows => Run.AllSteps (importStep U colMap) (SafeRow U colMap)
      { companies := companies, pairs := existingPairs companies } (rows.take 500)
  | .discover cfg records =>
    Run.AllSteps (processRecord U cfg) (SafeRecord U cfg) (discoveryStart companies) records

theorem AllAccepted.write_iff {U : Unicode} {cs cs' : List Company} {w : Write}
    (h : AllAccepted U cs) (hw : write U cs w = some cs') :
    AllAccepted U cs' ↔ SafeWrite U cs w := by
  cases w with
  | create body =>
    cases hw
    exact h.createCompany_iff
  | update companyId body =>
    cases hw
    exact h.updateCompany_iff
  | importRows colMap rows =>
    cases hw
    exact h.importCompanies_iff
  | discover cfg records =>
    cases hw
    exact h.discover_iff

/-- In a sequence of writes every stored domain is accepted by the validator, at every point,
exactly if all writes meet the condition. -/
theorem storedDomains_iff (U : Unicode) (writes : List Write) :
    Run.AllStates (write U) (AllAccepted U) [] writes ↔
      Run.AllSteps (write U) (SafeWrite U) [] writes :=
  Run.allStates_iff_allSteps (fun _ h => h) (fun _ _ _ h hsafe hs => (h.write_iff hs).mpr hsafe)
    (fun _ _ _ h hunsafe hs => mt (h.write_iff hs).mp hunsafe) (by simp [AllAccepted]) writes

/-- Discovery stores the address of a metadata service that a record gives as its domain. -/
theorem discovery_stores_rejected :
    ¬ Run.AllStates (write .ascii) (AllAccepted .ascii) []
      [.discover { similar := fun _ _ => false, maxCompanies := 0 }
        [{ name := "Acme".toList, domain := some "169.254.169.254".toList }]] := by
  intro h
  have hlast := (h.2 _ rfl).head
  have hstored : ∃ c ∈ processBedrijfsdataResults .ascii
      { similar := fun _ _ => false, maxCompanies := 0 } []
      [{ name := "Acme".toList, domain := some "169.254.169.254".toList }],
      ¬ Accepts .ascii c.domain := by
    refine ⟨{ id := 0, name := "Acme".toList, domain := "169.254.169.254".toList }, ?_, ?_⟩
    · decide +kernel
    · decide +kernel
  obtain ⟨c, hc, hrejected⟩ := hstored
  exact hrejected (hlast c hc)

end Domain
end LeadPulse
