import LeadPulse.Icp.StoredColumns
import LeadPulse.Lib.Outline
import LeadPulse.Lib.PyNum

/-!
# The criteria in the prompt

The system message of the relevance scoring has a text with the criteria of the active ICP profile,
`_build_icp_criteria` of `prompts/config_loader.py`. A profile of which the text is empty is told
as the built-in one.

`criteriaTold_iff` says what the model can know of a profile: its industries, bounds on the
employees (a bound of 0 is none), countries, technologies and excluded industries. Revenue,
regions, cities and excluded domains are not told, so that a profile that has no other filter is
told as the built-in one.
-/

namespace LeadPulse
namespace Prompts

open PyNum

/-! ## The text -/

/-- `_DEFAULT_ICP_CRITERIA`, by its lines. -/
def defaultIcpCriteria : List String :=
  ["1. Industry fit: Technical maintenance/service/installation, TIC (Testing, Inspection & " ++
    "Certification), insurance, or agricultural supply chain. Companies where field service " ++
    "professionals (monteurs, engineers, inspecteurs, installateurs) or frontline knowledge " ++
    "workers (planners, schadebehandelaars, kwaliteitscontroleurs) are core to operations.",
   "2. Geography: Netherlands (primary), Western/Central Europe (secondary).",
   "3. Pain points: Legacy systems (ERP/CRM/FSM not optimised for end users), paper-based " ++
    "or fragmented field processes, workforce shortages, aging workforce with undocumented " ++
    "knowledge, low adoption of digital tools, inefficient workflows.",
   "4. Digital maturity: Digitally aware but struggling with execution — they know digital " ++
    "transformation is needed but lack in-house capability to build user-centric solutions.",
   "5. Budget: Able to invest €40k-€250k+ in digital product development."]

def joinLines (lines : List (List Char)) : List Char := ['\n'].intercalate lines

/-- `', '.join(values)`, of a list that is not empty. -/
def items (values : List String) : Option (List Char) :=
  if values = [] then none else some ([',', ' '].intercalate (values.map String.toList))

/-- `bound or '?'` -/
def sizeBound (bound : Option ℤ) : List Char :=
  match bound with
  | none | some 0 => ['?']
  | some n => str n

/-- `bool(bound)` -/
def hasBound (bound : Option ℤ) : Bool := bound.any (· ≠ 0)

def sizeText (sizeFilter : SizeFilter) : Option (List Char) :=
  if hasBound sizeFilter.minEmployees || hasBound sizeFilter.maxEmployees then
    some (sizeBound sizeFilter.minEmployees ++ '-' :: sizeBound sizeFilter.maxEmployees ++
      " employees".toList)
  else none

def criteriaLabels : List (List Char) :=
  ["Industry fit: ", "Company size: ", "Geography: ", "Key technologies: ", "Exclude: "].map
    String.toList

def criteriaBodies (profile : ICPProfile) : List (Option (List Char)) :=
  [items (profile.industryFilter.getD []), profile.sizeFilter.bind sizeText,
    items ((profile.geoFilter.map (·.countries)).getD []), items (profile.techFilter.getD []),
    items ((profile.negativeFilters.map (·.excludedIndustries)).getD [])]

/-- `f"{i}. "` -/
def mark (i : ℕ) : List Char := str i ++ ['.', ' ']

/-- `_build_icp_criteria`; the profile is the active one. -/
def buildIcpCriteria : Option ICPProfile → List Char
  | none => []
  | some profile =>
    joinLines (Outline.numbered mark 1 (Outline.points criteriaLabels (criteriaBodies profile)))

/-- `icp_criteria` of the bundle. -/
def icpCriteria (profile : Option ICPProfile) : List Char :=
  if buildIcpCriteria profile = [] then joinLines (defaultIcpCriteria.map String.toList)
  else buildIcpCriteria profile

/-! ## What is told -/

/-- The criteria that the text can hold. -/
structure ToldCriteria where
  industries : List String := []
  minEmployees : ℤ := 0
  maxEmployees : ℤ := 0
  countries : List String := []
  technologies : List String := []
  excludedIndustries : List String := []
deriving DecidableEq, Repr

def told : Option ICPProfile → ToldCriteria
  | none => {}
  | some profile =>
    { industries := profile.industryFilter.getD []
      minEmployees := (profile.sizeFilter.bind (·.minEmployees)).getD 0
      maxEmployees := (profile.sizeFilter.bind (·.maxEmployees)).getD 0
      countries := (profile.geoFilter.map (·.countries)).getD []
      technologies := profile.techFilter.getD []
      excludedIndustries := (profile.negativeFilters.map (·.excludedIndustries)).getD [] }

/-- Nothing in a name looks like the end of it. -/
def PlainName (name : String) : Prop := ',' ∉ name.toList ∧ '\n' ∉ name.toList

instance (name : String) : Decidable (PlainName name) := inferInstanceAs (Decidable (_ ∧ _))

namespace ToldCriteria

/-- The bodies of the points. -/
def bodies (t : ToldCriteria) : List (Option (List Char)) :=
  [items t.industries, sizeText { minEmployees := t.minEmployees, maxEmployees := t.maxEmployees },
    items t.countries, items t.technologies, items t.excludedIndustries]

def NamesPlain (t : ToldCriteria) : Prop :=
  ∀ names ∈ [t.industries, t.countries, t.technologies, t.excludedIndustries],
    ∀ name ∈ names, PlainName name

/-- Criteria that can be read off their text. -/
structure Readable (t : ToldCriteria) : Prop where
  names : t.NamesPlain
  minEmployees : 0 ≤ t.minEmployees
  maxEmployees : 0 ≤ t.maxEmployees

end ToldCriteria

/-! ## The parts of the text -/

section

variable {b : Option ℤ} {n m : ℤ} {names names' : List String}

theorem not_mem_str {c : Char} (hdigit : c.isDigit = false) (hn : 0 ≤ n) : c ∉ str n := by
  obtain ⟨k, rfl⟩ := Int.eq_ofNat_of_zero_le hn
  intro h
  have hc : c.isDigit = true := Nat.isDigit_of_mem_toDigits (by decide) (by decide) h
  rw [hdigit] at hc
  cases hc

theorem str_inj (h : str n = str m) : n = m :=
  Option.some.inj ((int_str n).symm.trans ((congrArg int h).trans (int_str m)))

/-- A bound that is not set and a bound of 0 look the same. -/
theorem sizeBound_getD : sizeBound (some (b.getD 0)) = sizeBound b := by
  cases b with
  | none => rfl
  | some n => rfl

theorem hasBound_getD : hasBound (some (b.getD 0)) = hasBound b := by
  cases b with
  | none => rfl
  | some n => rfl

theorem sizeBound_some (hn : n ≠ 0) : sizeBound (some n) = str n := by
  unfold sizeBound
  split
  · rename_i h
    cases h
  · rename_i h
    exact absurd (Option.some.inj h) hn
  · rename_i h
    rw [Option.some.inj h]

theorem not_mem_sizeBound {c : Char} (hdigit : c.isDigit = false) (hc : c ≠ '?')
    (hn : 0 ≤ n) : c ∉ sizeBound (some n) := by
  by_cases h0 : n = 0
  · rw [h0]
    exact fun h => hc (List.mem_singleton.mp h)
  · rw [sizeBound_some h0]
    exact not_mem_str hdigit hn

theorem sizeBound_inj (hn : 0 ≤ n) (hm : 0 ≤ m) (h : sizeBound (some n) = sizeBound (some m)) :
    n = m := by
  have hquestion {k : ℤ} (hk : 0 ≤ k) (hk0 : k ≠ 0) : sizeBound (some 0) ≠ sizeBound (some k) := by
    intro heq
    have hmem : '?' ∈ str k := by
      rw [← sizeBound_some hk0, ← heq]
      exact List.mem_singleton_self _
    exact not_mem_str (by decide) hk hmem
  by_cases hn0 : n = 0
  · by_cases hm0 : m = 0
    · rw [hn0, hm0]
    · rw [hn0] at h
      exact absurd h (hquestion hm hm0)
  · by_cases hm0 : m = 0
    · rw [hm0] at h
      exact absurd h.symm (hquestion hn hn0)
    · rw [sizeBound_some hn0, sizeBound_some hm0] at h
      exact str_inj h

theorem sizeText_inj {n' m' : ℤ} (hn : 0 ≤ n) (hm : 0 ≤ m) (hn' : 0 ≤ n') (hm' : 0 ≤ m')
    (h : sizeText { minEmployees := some n, maxEmployees := some m } =
      sizeText { minEmployees := some n', maxEmployees := some m' }) : n = n' ∧ m = m' := by
  have hset {k l : ℤ} (hk : sizeText { minEmployees := some k, maxEmployees := some l } = none) :
      k = 0 ∧ l = 0 := by
    unfold sizeText at hk
    split at hk
    · cases hk
    · rename_i hnone
      simpa [hasBound] using hnone
  cases htext : sizeText { minEmployees := some n, maxEmployees := some m } with
  | none =>
    rw [htext] at h
    obtain ⟨rfl, rfl⟩ := hset htext
    obtain ⟨rfl, rfl⟩ := hset h.symm
    exact ⟨rfl, rfl⟩
  | some text =>
    have htext' := h.symm.trans htext
    unfold sizeText at htext htext'
    split at htext
    · split at htext'
      · have heq := (Option.some.inj htext).trans (Option.some.inj htext').symm
        rw [List.append_assoc, List.append_assoc, List.cons_append, List.cons_append] at heq
        obtain ⟨hlo, hrest⟩ := Outline.append_cons_inj
          (not_mem_sizeBound (by decide) (by decide) hn)
          (not_mem_sizeBound (by decide) (by decide) hn') heq
        exact ⟨sizeBound_inj hn hn' hlo, sizeBound_inj hm hm' (List.append_cancel_right hrest)⟩
      · cases htext'
    · cases htext

theorem newline_not_mem_items {text : List Char} (h : ∀ name ∈ names, PlainName name)
    (htext : items names = some text) : '\n' ∉ text := by
  unfold items at htext
  split at htext
  · cases htext
  · obtain rfl := Option.some.inj htext
    intro hmem
    rcases Outline.mem_of_mem_intercalate hmem with hsep | ⟨x, hx, hmem⟩
    · exact absurd hsep (by decide)
    · obtain ⟨name, hname, rfl⟩ := List.mem_map.mp hx
      exact (h name hname).2 hmem

theorem newline_not_mem_sizeText {text : List Char} (hn : 0 ≤ n) (hm : 0 ≤ m)
    (htext : sizeText { minEmployees := some n, maxEmployees := some m } = some text) :
    '\n' ∉ text := by
  unfold sizeText at htext
  split at htext
  · obtain rfl := Option.some.inj htext
    have hlo := not_mem_sizeBound (by decide : '\n'.isDigit = false) (by decide) hn
    have hhi := not_mem_sizeBound (by decide : '\n'.isDigit = false) (by decide) hm
    simp [hlo, hhi]
  · cases htext

theorem items_inj (h : ∀ name ∈ names, PlainName name) (h' : ∀ name ∈ names', PlainName name)
    (heq : items names = items names') : names = names' := by
  have hcomma {names : List String} (h : ∀ name ∈ names, PlainName name) :
      ∀ text ∈ names.map String.toList, ',' ∉ text := by
    intro text htext
    obtain ⟨name, hname, rfl⟩ := List.mem_map.mp htext
    exact (h name hname).1
  unfold items at heq
  split at heq
  · rename_i hnil
    split at heq
    · rename_i hnil'
      rw [hnil, hnil']
    · cases heq
  · rename_i hne
    split at heq
    · cases heq
    · rename_i hne'
      have hmap := (Outline.intercalate_inj (hcomma h) (hcomma h')
        (mt List.map_eq_nil_iff.mp hne) (mt List.map_eq_nil_iff.mp hne')).mp (Option.some.inj heq)
      exact List.map_injective_iff.mpr (fun _ _ => String.toList_inj.mp) hmap

end

/-! ## The whole text -/

section

variable {t t' : ToldCriteria} {p q : Option ICPProfile} {line : List Char}

/-- The points of the text. -/
def toldLines (t : ToldCriteria) : List (List Char) :=
  Outline.numbered mark 1 (Outline.points criteriaLabels t.bodies)

theorem criteriaBodies_eq (profile : ICPProfile) :
    criteriaBodies profile = (told (some profile)).bodies := by
  have hsize : profile.sizeFilter.bind sizeText =
      sizeText { minEmployees := some ((profile.sizeFilter.bind (·.minEmployees)).getD 0)
                 maxEmployees := some ((profile.sizeFilter.bind (·.maxEmployees)).getD 0) } := by
    cases profile.sizeFilter with
    | none => rfl
    | some f =>
      unfold sizeText
      simp only [Option.bind_some, sizeBound_getD, hasBound_getD]
  unfold criteriaBodies ToldCriteria.bodies
  rw [hsize]
  rfl

theorem buildIcpCriteria_eq (p : Option ICPProfile) :
    buildIcpCriteria p = joinLines (toldLines (told p)) := by
  cases p with
  | none => rfl
  | some profile =>
    show joinLines (Outline.numbered mark 1 (Outline.points _ (criteriaBodies profile))) = _
    rw [criteriaBodies_eq]
    rfl

/-- No line has a line break in it. -/
theorem newline_not_mem (h : t.Readable) (hline : line ∈ toldLines t) : '\n' ∉ line := by
  obtain ⟨i, point, hpoint, rfl⟩ := Outline.mem_numbered hline
  obtain ⟨label, hlabel, text, htext, rfl⟩ := Outline.mem_points hpoint
  have hmark : '\n' ∉ mark i := by
    have hnum : '\n' ∉ str i := not_mem_str (by decide) (Int.natCast_nonneg i)
    simpa [mark] using hnum
  have hlabels : ∀ label ∈ criteriaLabels, '\n' ∉ label := by decide
  have hnames := h.names
  unfold ToldCriteria.NamesPlain at hnames
  have htext' : '\n' ∉ text := by
    simp only [ToldCriteria.bodies, List.mem_cons, List.not_mem_nil, or_false] at htext hnames
    rcases htext with htext | htext | htext | htext | htext
    · exact newline_not_mem_items (hnames _ (.inl rfl)) htext.symm
    · exact newline_not_mem_sizeText h.minEmployees h.maxEmployees htext.symm
    · exact newline_not_mem_items (hnames _ (.inr (.inl rfl))) htext.symm
    · exact newline_not_mem_items (hnames _ (.inr (.inr (.inl rfl)))) htext.symm
    · exact newline_not_mem_items (hnames _ (.inr (.inr (.inr rfl)))) htext.symm
  simp only [List.mem_append, not_or]
  exact ⟨hmark, hlabels label hlabel, htext'⟩

theorem bodies_inj (h : t.Readable) (h' : t'.Readable) (heq : t.bodies = t'.bodies) : t = t' := by
  have hnames := h.names
  have hnames' := h'.names
  simp only [ToldCriteria.NamesPlain, List.mem_cons, List.not_mem_nil, or_false,
    forall_eq_or_imp, forall_eq] at hnames hnames'
  simp only [ToldCriteria.bodies, List.cons.injEq, and_true] at heq
  obtain ⟨hindustries, hsize, hcountries, htechnologies, hexcluded⟩ := heq
  obtain ⟨hmin, hmax⟩ := sizeText_inj h.minEmployees h.maxEmployees h'.minEmployees
    h'.maxEmployees hsize
  obtain ⟨industries, lo, hi, countries, technologies, excluded⟩ := t
  obtain rfl := items_inj hnames.1 hnames'.1 hindustries
  obtain rfl := items_inj hnames.2.1 hnames'.2.1 hcountries
  obtain rfl := items_inj hnames.2.2.1 hnames'.2.2.1 htechnologies
  obtain rfl := items_inj hnames.2.2.2 hnames'.2.2.2 hexcluded
  obtain rfl : lo = _ := hmin
  obtain rfl : hi = _ := hmax
  rfl

/-- The lines of a text can be told apart. -/
theorem joinLines_inj {ls ls' : List (List Char)} (h : ∀ l ∈ ls, '\n' ∉ l)
    (h' : ∀ l ∈ ls', '\n' ∉ l) (hne : ls ≠ []) (hne' : ls' ≠ []) :
    joinLines ls = joinLines ls' ↔ ls = ls' :=
  Outline.intercalate_inj h h' hne hne'

theorem mark_ne_nil (i : ℕ) : mark i ≠ [] := by simp [mark]

/-- The text is empty only if there is nothing to tell. -/
theorem joinLines_toldLines_eq_nil_iff : joinLines (toldLines t) = [] ↔ toldLines t = [] := by
  refine ⟨fun h => ?_, fun h => by rw [h]; rfl⟩
  cases hlines : toldLines t with
  | nil => rfl
  | cons line lines =>
    obtain ⟨i, point, -, rfl⟩ := Outline.mem_numbered (hlines ▸ List.mem_cons_self)
    rw [hlines] at h
    unfold joinLines at h
    cases lines with
    | nil =>
      rw [List.intercalate_singleton, List.append_eq_nil_iff] at h
      exact absurd h.1 (mark_ne_nil i)
    | cons line lines =>
      simp [List.intercalate_cons_cons] at h

/-! The characters of a literal are told without decoding it, by what it is the `ofList` of. -/

theorem not_mem_toList {c : Char} {s : String} {cs : List Char} (h : s = String.ofList cs)
    (hc : c ∉ cs) : c ∉ s.toList := by
  rwa [h, String.toList_ofList]

theorem getElem?_toList_append {c : Char} {s : String} {cs rest : List Char} {i : ℕ}
    (h : s = String.ofList cs) (hi : cs[i]? = some c) : (s.toList ++ rest)[i]? = some c := by
  obtain ⟨hlt, rfl⟩ := List.getElem?_eq_some_iff.mp hi
  rw [h, String.toList_ofList, List.getElem?_append_left hlt, hi]

theorem newline_not_mem_default :
    ∀ line ∈ defaultIcpCriteria.map String.toList, '\n' ∉ line := by
  simp only [defaultIcpCriteria, List.forall_mem_map, List.forall_mem_cons, String.toList_append,
    List.mem_append, not_or]
  refine ⟨⟨⟨⟨?_, ?_⟩, ?_⟩, ?_⟩, ?_, ⟨⟨?_, ?_⟩, ?_⟩, ⟨?_, ?_⟩, ?_, List.forall_mem_nil _⟩
  all_goals exact not_mem_toList rfl (by decide +kernel)

theorem joinLines_default_ne_nil : joinLines (defaultIcpCriteria.map String.toList) ≠ [] := by
  simp only [joinLines, defaultIcpCriteria, List.map_cons, List.intercalate_cons_cons, ne_eq,
    List.append_eq_nil_iff, reduceCtorEq, false_and, and_false, not_false_eq_true]

theorem third_default :
    (defaultIcpCriteria.map String.toList)[2]?.bind (·[3]?) = some 'P' := by
  simp only [defaultIcpCriteria, List.map_cons, List.getElem?_cons_succ, List.getElem?_cons_zero,
    Option.bind_some, String.toList_append, List.append_assoc]
  exact getElem?_toList_append rfl rfl

/-- The third point of the built-in criteria is none that a profile can have. -/
theorem joinLines_toldLines_ne_default (h : t.Readable) :
    joinLines (toldLines t) ≠ joinLines (defaultIcpCriteria.map String.toList) := by
  intro heq
  by_cases hnil : toldLines t = []
  · rw [hnil] at heq
    exact joinLines_default_ne_nil heq.symm
  · rw [joinLines_inj (fun _ => newline_not_mem h) newline_not_mem_default hnil (by decide)] at heq
    have hletter : ((toldLines t)[2]?.bind (·[3]?)) = some 'P' := by
      rw [heq]
      exact third_default
    rw [toldLines, Outline.getElem?_numbered] at hletter
    obtain ⟨line, hline, hletter⟩ := Option.bind_eq_some_iff.mp hletter
    obtain ⟨point, hpoint, rfl⟩ := Option.map_eq_some_iff.mp hline
    obtain ⟨label, hlabel, hhead⟩ :=
      Outline.head_of_mem_points (by decide) (List.mem_of_getElem? hpoint)
    have hmark : mark (1 + 2) = ['3', '.', ' '] := by decide +kernel
    rw [hmark] at hletter
    replace hletter : point.head? = some 'P' := List.head?_eq_getElem?.trans hletter
    have hlabels : ∀ label ∈ criteriaLabels, label.head? ≠ some 'P' := by decide
    exact hlabels label hlabel (hhead.symm.trans hletter)

theorem icpCriteria_eq_iff (hp : (told p).Readable) (hq : (told q).Readable) :
    icpCriteria p = icpCriteria q ↔ told p = told q := by
  unfold icpCriteria
  rw [buildIcpCriteria_eq, buildIcpCriteria_eq]
  refine ⟨fun h => ?_, fun h => by rw [h]⟩
  have hinj (heq : toldLines (told p) = toldLines (told q)) : told p = told q :=
    bodies_inj hp hq ((Outline.points_inj (by decide) (by decide) rfl rfl).mp
      (Outline.numbered_inj.mp heq))
  simp only [joinLines_toldLines_eq_nil_iff] at h
  split at h
  · rename_i hnil
    split at h
    · rename_i hnil'
      exact hinj (hnil.trans hnil'.symm)
    · exact absurd h.symm (joinLines_toldLines_ne_default hq)
  · rename_i hne
    split at h
    · exact absurd h (joinLines_toldLines_ne_default hp)
    · rename_i hne'
      exact hinj ((joinLines_inj (fun _ => newline_not_mem hp) (fun _ => newline_not_mem hq) hne
        hne').mp h)

/-- What is told of a stored profile, if its names are plain. -/
theorem readable_of_checked {row : ICPProfile} (h : row.checkColumns = .ok ())
    (hnames : (told (some row)).NamesPlain) : (told (some row)).Readable := by
  have hsize := (ICPProfile.checkColumns_eq_ok_iff.mp h).2
  have hbound {bound : Option ℤ} (hbound : ∀ n ∈ bound, 0 ≤ n) : 0 ≤ bound.getD 0 := by
    cases bound with
    | none => exact Int.le_refl 0
    | some n => exact hbound n rfl
  cases hfilter : row.sizeFilter with
  | none =>
    refine ⟨hnames, ?_, ?_⟩
    · simp [told, hfilter]
    · simp [told, hfilter]
  | some f =>
    rw [hfilter] at hsize
    obtain ⟨⟨hmin, hmax, -⟩, -⟩ := SizeFilter.validate_eq_ok_iff.mp hsize
    refine ⟨hnames, ?_, ?_⟩
    · simpa [told, hfilter] using hbound hmin
    · simpa [told, hfilter] using hbound hmax

end

/-! ## Runs -/

/-- In every interleaving of the requests, two stored profiles (or none at all) are told by the same
text exactly if they agree on what a text can hold, as long as their names are plain. -/
theorem criteriaTold_iff (events : List IcpEvent) :
    Run.AllStates IcpWorld.step
      (fun w => ∀ p q : Option ICPProfile,
        (∀ row ∈ p, row ∈ w.table.profiles ∧ (told (some row)).NamesPlain) →
        (∀ row ∈ q, row ∈ w.table.profiles ∧ (told (some row)).NamesPlain) →
        (icpCriteria p = icpCriteria q ↔ told p = told q))
      (IcpWorld.init .init) events := by
  have hinv : Run.AllStates IcpWorld.step IcpWorld.ColumnsChecked (IcpWorld.init .init) events :=
    Run.AllStates.of_step (fun _ _ _ h hs => h.step hs) IcpWorld.columnsChecked_init events
  refine hinv.mono fun w h p q hp hq => ?_
  have hreadable {p : Option ICPProfile}
      (hp : ∀ row ∈ p, row ∈ w.table.profiles ∧ (told (some row)).NamesPlain) :
      (told p).Readable := by
    cases p with
    | none => exact ⟨by simp [ToldCriteria.NamesPlain, told], Int.le_refl 0, Int.le_refl 0⟩
    | some row =>
      obtain ⟨hrow, hnames⟩ := hp row rfl
      exact readable_of_checked (h.rows row hrow) hnames
  exact icpCriteria_eq_iff (hreadable hp) (hreadable hq)

def shops : ICPProfile where
  id := 1
  name := "Shops"
  industryFilter := some ["Retail"]
  sizeFilter := none
  geoFilter := some { countries := ["NL"] }
  techFilter := none
  negativeFilters := none
  isActive := true

/-- An industry with a line break tells of a country that is not in the filter. -/
example : icpCriteria (some { shops with
      industryFilter := some ["Retail\n2. Geography: NL"]
      geoFilter := none }) = icpCriteria (some shops) := by
  decide +kernel

end Prompts
end LeadPulse
