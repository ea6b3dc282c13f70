import LeadPulse.Icp.StoredColumns
import LeadPulse.Lib.PyNum
import Mathlib.Data.Rat.Cast.Order
import Mathlib.Tactic.Linarith
import Mathlib.Tactic.NormNum

/-!
# The form of an ICP profile

The form of `pages/ICP.tsx` that creates and edits profiles (`profileToForm`, `handleSubmit`,
`formToPayload`), the browser that checks its number fields, and the server that reads the body of
the request.

Both sides check the same: by `accepted_iff` the server accepts what the form sends, but for a name
of more than 255 characters and for a number of employees from `10 ^ 21` on, which the browser does
not write with digits.
-/

namespace LeadPulse
namespace Frontend

/-! ## Numbers in the browser -/

/-- The numbers of JavaScript, as far as they are finite. -/
structure JsNumber where
  /-- The double that `JSON.parse` makes of a number. -/
  double : ℚ → ℚ
  /-- `Number(text)`, `none` if this is no finite number. -/
  number : String → Option ℚ
  /-- `toString()` of a double. -/
  text : ℚ → String
  double_double : ∀ q, double (double q) = double q
  number_text : ∀ q, number (text (double q)) = some (double q)
  text_ne : ∀ q, text q ≠ ""

/-- As far as integers go. -/
def JsNumber.whole : JsNumber where
  double q := q.floor
  number text := (PyNum.int text.toList).map fun n : ℤ => (n : ℚ)
  text q := String.ofList (PyNum.str q.floor)
  double_double q := by rw [Rat.floor_intCast]
  number_text q := by rw [Rat.floor_intCast, String.toList_ofList, PyNum.int_str, Option.map_some]
  text_ne q := by
    rw [ne_eq, ← String.toList_inj, String.toList_ofList]
    cases q.floor with
    | ofNat n => exact Nat.toDigits_ne_nil
    | negSucc n => exact List.cons_ne_nil _ _

/-- The value of an `<input type="number" min={0}>` is one that the browser submits: none, or a
number that is not negative and has no fraction, since the step is 1. -/
def nativeValid (J : JsNumber) (text : String) : Bool :=
  text = "" || (J.number text).any fun q => 0 ≤ q && q.den = 1

/-- `text ? Number(text) : null`, of a text that the browser has checked. -/
def fieldNumber (J : JsNumber) (text : String) : Option ℚ :=
  if text = "" then none else J.number text

/-- `value?.toString() ?? ""`, of a value from a response. -/
def fieldText (J : JsNumber) : Option ℚ → String
  | none => ""
  | some q => J.text (J.double q)

/-! ## The form -/

structure FormState where
  name : String := ""
  industryFilter : List String := []
  minEmployees : String := ""
  maxEmployees : String := ""
  minRevenue : String := ""
  maxRevenue : String := ""
  countries : List String := []
  regions : List String := []
  cities : List String := []
  techFilter : List String := []
  excludedIndustries : List String := []
  excludedDomains : List String := []
deriving DecidableEq, Repr

/-- `size_filter` in the body of a request. -/
structure SizeBody where
  minEmployees : Option ℚ
  maxEmployees : Option ℚ
  minRevenue : Option ℚ
  maxRevenue : Option ℚ
deriving DecidableEq, Repr

/-- The body of a request; all keys are there, some with the value `null`. -/
structure ProfileBody where
  name : String
  industryFilter : Option (List String)
  sizeFilter : Option SizeBody
  geoFilter : Option GeoFilter
  techFilter : Option (List String)
  negativeFilters : Option NegativeFilters
deriving DecidableEq, Repr

/-- White space to `trim()`. -/
def isJsSpace (c : Char) : Bool :=
  c.toNat ∈ [0x9, 0xA, 0xB, 0xC, 0xD, 0x20, 0xA0, 0x1680, 0x2000, 0x2001, 0x2002, 0x2003, 0x2004,
    0x2005, 0x2006, 0x2007, 0x2008, 0x2009, 0x200A, 0x2028, 0x2029, 0x202F, 0x205F, 0x3000, 0xFEFF]

namespace FormState

variable (J : JsNumber) (f : FormState)

def hasPositiveFilter : Bool :=
  !f.industryFilter.isEmpty || f.minEmployees ≠ "" || f.maxEmployees ≠ "" || f.minRevenue ≠ "" ||
    f.maxRevenue ≠ "" || !f.countries.isEmpty || !f.regions.isEmpty || !f.cities.isEmpty ||
    !f.techFilter.isEmpty

/-- `filter.length ? filter : null` -/
def listOrNull (filter : List String) : Option (List String) :=
  if filter.isEmpty then none else some filter

def toPayload : ProfileBody :=
  let minEmp := fieldNumber J f.minEmployees
  let maxEmp := fieldNumber J f.maxEmployees
  let minRev := fieldNumber J f.minRevenue
  let maxRev := fieldNumber J f.maxRevenue
  let hasSizeFilter := minEmp.isSome || maxEmp.isSome || minRev.isSome || maxRev.isSome
  let hasGeo := !f.countries.isEmpty || !f.regions.isEmpty || !f.cities.isEmpty
  let hasNegative := !f.excludedIndustries.isEmpty || !f.excludedDomains.isEmpty
  { name := f.name
    industryFilter := listOrNull f.industryFilter
    sizeFilter := if hasSizeFilter then some ⟨minEmp, maxEmp, minRev, maxRev⟩ else none
    geoFilter := if hasGeo then some ⟨f.countries, f.regions, f.cities⟩ else none
    techFilter := listOrNull f.techFilter
    negativeFilters :=
      if hasNegative then some ⟨f.excludedIndustries, f.excludedDomains⟩ else none }

/-- `min != null && max != null && min >= max` -/
def disordered (lower upper : Option ℚ) : Bool :=
  lower.any fun lower => upper.any fun upper => upper ≤ lower

/-- What the form shows, or sends. -/
def handleSubmit : Except String ProfileBody :=
  if f.name.toList.all isJsSpace then .error "Profile name is required."
  else if !f.hasPositiveFilter then
    .error "At least one positive filter (industry, size, geo, or tech) is required."
  else if disordered (fieldNumber J f.minEmployees) (fieldNumber J f.maxEmployees) then
    .error "Min employees must be less than max employees."
  else if disordered (fieldNumber J f.minRevenue) (fieldNumber J f.maxRevenue) then
    .error "Min revenue must be less than max revenue."
  else .ok (f.toPayload J)

def fieldsValid : Bool :=
  nativeValid J f.minEmployees && nativeValid J f.maxEmployees && nativeValid J f.minRevenue &&
    nativeValid J f.maxRevenue

/-- A click on the button: the browser holds the form back, or it is handled. -/
def submit : Option ProfileBody :=
  if f.fieldsValid J then (f.handleSubmit J).toOption else none

end FormState

/-- `profileToForm` -/
def profileToForm (J : JsNumber) (p : ICPProfile) : FormState where
  name := p.name
  industryFilter := p.industryFilter.getD []
  minEmployees := fieldText J
    (p.sizeFilter.bind fun s => s.minEmployees.map fun n : ℤ => (n : ℚ))
  maxEmployees := fieldText J
    (p.sizeFilter.bind fun s => s.maxEmployees.map fun n : ℤ => (n : ℚ))
  minRevenue := fieldText J (p.sizeFilter.bind SizeFilter.minRevenue)
  maxRevenue := fieldText J (p.sizeFilter.bind SizeFilter.maxRevenue)
  countries := (p.geoFilter.map GeoFilter.countries).getD []
  regions := (p.geoFilter.map GeoFilter.regions).getD []
  cities := (p.geoFilter.map GeoFilter.cities).getD []
  techFilter := p.techFilter.getD []
  excludedIndustries := (p.negativeFilters.map NegativeFilters.excludedIndustries).getD []
  excludedDomains := (p.negativeFilters.map NegativeFilters.excludedDomains).getD []

/-! ## The server -/

/-- The field of an integer: the browser writes a number from `10 ^ 21` on with an exponent, and
that is too large a float. -/
def readInt (field : String) : Option ℚ → Except ValidationError (Option ℤ)
  | none => .ok none
  | some q =>
    if q.den ≠ 1 then
      .error ⟨field, "Input should be a valid integer, got a number with a fractional part"⟩
    else if q ≤ -10 ^ 21 ∨ 10 ^ 21 ≤ q then
      .error ⟨field, "Unable to parse input string as an integer, exceeded maximum size"⟩
    else .ok (some q.num)

def SizeBody.read (b : SizeBody) : Except ValidationError SizeFilter := do
  let minEmployees ← readInt "min_employees" b.minEmployees
  let maxEmployees ← readInt "max_employees" b.maxEmployees
  return ⟨minEmployees, maxEmployees, b.minRevenue, b.maxRevenue⟩

namespace ProfileBody

def readSize : Option SizeBody → Except ValidationError (Option SizeFilter)
  | none => .ok none
  | some b => b.read.map some

def createData (b : ProfileBody) (sizeFilter : Option SizeFilter) : ICPProfileCreate where
  name := b.name
  industryFilter := b.industryFilter
  sizeFilter := sizeFilter
  geoFilter := b.geoFilter
  techFilter := b.techFilter
  negativeFilters := b.negativeFilters

def updateData (b : ProfileBody) (sizeFilter : Option SizeFilter) : ICPProfileUpdate where
  name := .set (some b.name)
  industryFilter := .set b.industryFilter
  sizeFilter := .set sizeFilter
  geoFilter := .set b.geoFilter
  techFilter := .set b.techFilter
  negativeFilters := .set b.negativeFilters

/-- The body of `POST /icp-profiles`. -/
def create (b : ProfileBody) : Except ValidationError ICPProfileCreate := do
  let sizeFilter ← readSize b.sizeFilter
  (b.createData sizeFilter).validate
  return b.createData sizeFilter

/-- The body of `PUT /icp-profiles/{profile_id}`. -/
def update (b : ProfileBody) : Except ValidationError ICPProfileUpdate := do
  let sizeFilter ← readSize b.sizeFilter
  (b.updateData sizeFilter).validate
  return b.updateData sizeFilter

end ProfileBody

/-! ## Numbers in the fields -/

variable {J : JsNumber} {f : FormState} {body : ProfileBody} {text : String}

/-- A field that the browser submits is empty, or holds a natural number. -/
theorem exists_of_nativeValid (h : nativeValid J text = true) :
    ∃ n : Option ℕ, fieldNumber J text = n.map (fun n : ℕ => (n : ℚ)) ∧ (text = "" ↔ n = none) := by
  unfold nativeValid at h
  unfold fieldNumber
  by_cases htext : text = ""
  · exact ⟨none, by rw [if_pos htext]; rfl, iff_of_true htext rfl⟩
  · rw [if_neg htext]
    simp only [htext, decide_false, Bool.false_or, Option.any_eq_true, Bool.and_eq_true,
      decide_eq_true_eq] at h
    obtain ⟨q, hq, hpos, hden⟩ := h
    have hnum : 0 ≤ q.num := Rat.num_nonneg.mpr hpos
    refine ⟨some q.num.toNat, ?_, iff_of_false htext (Option.some_ne_none _)⟩
    rw [hq, Option.map_some, ← Int.cast_natCast, Int.toNat_of_nonneg hnum,
      ← Rat.coe_int_num_of_den_eq_one hden]
    simp

theorem readInt_cast_iff {field : String} {n : Option ℕ} {value : Option ℤ} :
    readInt field (n.map fun n : ℕ => (n : ℚ)) = .ok value ↔
      (∀ m ∈ n, m < 10 ^ 21) ∧ value = n.map fun n : ℕ => (n : ℤ) := by
  cases n with
  | none =>
    show Except.ok none = Except.ok value ↔ _
    simp [eq_comm]
  | some m =>
    have hden : ((m : ℕ) : ℚ).den = 1 := Rat.den_natCast m
    have hlow : ¬ (m : ℚ) ≤ -10 ^ 21 := by
      have hpos : (0 : ℚ) ≤ m := Nat.cast_nonneg m
      intro hle
      norm_num at hle
      linarith
    have hhigh : (10 : ℚ) ^ 21 ≤ m ↔ ¬ m < 10 ^ 21 := by
      rw [not_lt]
      exact_mod_cast Iff.rfl
    simp only [Option.map_some, readInt, hden, ne_eq, not_true, if_false, hlow, false_or, hhigh,
      Option.mem_some_iff, forall_eq', Rat.num_natCast]
    by_cases hm : m < 10 ^ 21
    · simp only [hm, not_true, if_false, Except.ok.injEq, true_and]
      exact eq_comm
    · simp only [hm, not_false_eq_true, if_true, false_and, reduceCtorEq]

namespace FormState

/-- The bounds on the employees are written with digits. -/
def employeesFit (J : JsNumber) (f : FormState) : Bool :=
  (fieldNumber J f.minEmployees).all (· < 10 ^ 21) &&
    (fieldNumber J f.maxEmployees).all (· < 10 ^ 21)

theorem submit_eq_some_iff : f.submit J = some body ↔
    f.fieldsValid J = true ∧ f.name.toList.all isJsSpace = false ∧ f.hasPositiveFilter = true ∧
      disordered (fieldNumber J f.minEmployees) (fieldNumber J f.maxEmployees) = false ∧
      disordered (fieldNumber J f.minRevenue) (fieldNumber J f.maxRevenue) = false ∧
      f.toPayload J = body := by
  unfold submit handleSubmit
  split
  · rename_i hfields
    cases f.name.toList.all isJsSpace <;> cases f.hasPositiveFilter <;>
      cases disordered (fieldNumber J f.minEmployees) (fieldNumber J f.maxEmployees) <;>
      cases disordered (fieldNumber J f.minRevenue) (fieldNumber J f.maxRevenue) <;>
      simp [hfields, Except.toOption]
  · rename_i hfields
    simp [hfields]

end FormState

/-! ## A form that is sent -/

/-- The numbers of a form that the browser submits, and what the server makes of them. -/
structure Sizes (J : JsNumber) (f : FormState) (a b c d : Option ℕ) : Prop where
  minEmployees : fieldNumber J f.minEmployees = a.map fun n : ℕ => (n : ℚ)
  maxEmployees : fieldNumber J f.maxEmployees = b.map fun n : ℕ => (n : ℚ)
  minRevenue : fieldNumber J f.minRevenue = c.map fun n : ℕ => (n : ℚ)
  maxRevenue : fieldNumber J f.maxRevenue = d.map fun n : ℕ => (n : ℚ)
  empty : f.minEmployees = "" ∧ f.maxEmployees = "" ∧ f.minRevenue = "" ∧ f.maxRevenue = "" ↔
    a = none ∧ b = none ∧ c = none ∧ d = none

theorem exists_sizes (h : f.fieldsValid J = true) : ∃ a b c d, Sizes J f a b c d := by
  unfold FormState.fieldsValid at h
  simp only [Bool.and_eq_true, and_assoc] at h
  obtain ⟨ha, hb, hc, hd⟩ := h
  obtain ⟨a, ha, ha'⟩ := exists_of_nativeValid ha
  obtain ⟨b, hb, hb'⟩ := exists_of_nativeValid hb
  obtain ⟨c, hc, hc'⟩ := exists_of_nativeValid hc
  obtain ⟨d, hd, hd'⟩ := exists_of_nativeValid hd
  exact ⟨a, b, c, d, ha, hb, hc, hd, by rw [ha', hb', hc', hd']⟩

/-- The size filter that the server reads. -/
def sizeFilterOf (a b c d : Option ℕ) : Option SizeFilter :=
  if a = none ∧ b = none ∧ c = none ∧ d = none then none
  else some
    { minEmployees := a.map fun n : ℕ => (n : ℤ)
      maxEmployees := b.map fun n : ℕ => (n : ℤ)
      minRevenue := c.map fun n : ℕ => (n : ℚ)
      maxRevenue := d.map fun n : ℕ => (n : ℚ) }

section Sizes

variable {a b c d : Option ℕ} {size : Option SizeFilter}

theorem hasSize_sizeFilterOf :
    hasSize (sizeFilterOf a b c d) = true ↔ ¬(a = none ∧ b = none ∧ c = none ∧ d = none) := by
  unfold sizeFilterOf hasSize
  split
  · simp [*]
  · cases a <;> cases b <;> cases c <;> cases d <;> simp_all

theorem Sizes.employeesFit_iff (h : Sizes J f a b c d) :
    f.employeesFit J = true ↔ (∀ m ∈ a, m < 10 ^ 21) ∧ ∀ m ∈ b, m < 10 ^ 21 := by
  have hcast (n : Option ℕ) :
      (n.map fun n : ℕ => (n : ℚ)).all (· < 10 ^ 21) = true ↔ ∀ m ∈ n, m < 10 ^ 21 := by
    cases n with
    | none => simp
    | some m =>
      simp only [Option.map_some, Option.all_some, decide_eq_true_eq, Option.mem_some_iff,
        forall_eq']
      exact_mod_cast Iff.rfl
  unfold FormState.employeesFit
  rw [h.minEmployees, h.maxEmployees, Bool.and_eq_true, hcast, hcast]

theorem Sizes.readSize_iff (h : Sizes J f a b c d) :
    ProfileBody.readSize (f.toPayload J).sizeFilter = .ok size ↔
      f.employeesFit J = true ∧ size = sizeFilterOf a b c d := by
  rw [h.employeesFit_iff]
  unfold FormState.toPayload sizeFilterOf
  simp only [h.minEmployees, h.maxEmployees, h.minRevenue, h.maxRevenue, Option.isSome_map]
  by_cases hnone : a = none ∧ b = none ∧ c = none ∧ d = none
  · obtain ⟨rfl, rfl, rfl, rfl⟩ := hnone
    show Except.ok none = Except.ok size ↔ _
    simp [eq_comm]
  · have hsome : (a.isSome || b.isSome || c.isSome || d.isSome) = true := by
      cases a <;> cases b <;> cases c <;> cases d <;> simp_all
    rw [if_pos hsome, if_neg hnone]
    show SizeBody.read _ >>= (fun s => Except.ok (some s)) = _ ↔ _
    unfold SizeBody.read
    simp only [Raises.bind_eq_ok_iff, readInt_cast_iff]
    constructor
    · rintro ⟨s, ⟨x, ⟨ha, rfl⟩, y, ⟨hb, rfl⟩, hs⟩, hsize⟩
      obtain rfl := Except.ok.inj hs
      exact ⟨⟨ha, hb⟩, (Except.ok.inj hsize).symm⟩
    · rintro ⟨⟨ha, hb⟩, rfl⟩
      exact ⟨_, ⟨_, ⟨ha, rfl⟩, _, ⟨hb, rfl⟩, rfl⟩, rfl⟩

/-- Ranges that the form lets through. -/
theorem checkOptional_sizeFilterOf (h : Sizes J f a b c d)
    (he : FormState.disordered (fieldNumber J f.minEmployees) (fieldNumber J f.maxEmployees) =
      false)
    (hr : FormState.disordered (fieldNumber J f.minRevenue) (fieldNumber J f.maxRevenue) =
      false) :
    checkOptional SizeFilter.validate (sizeFilterOf a b c d) = .ok () := by
  rw [h.minEmployees, h.maxEmployees] at he
  rw [h.minRevenue, h.maxRevenue] at hr
  have hlt (x y : Option ℕ) (hxy : FormState.disordered (x.map fun n : ℕ => (n : ℚ))
      (y.map fun n : ℕ => (n : ℚ)) = false) : ∀ lo ∈ x, ∀ hi ∈ y, lo < hi := by
    rintro lo hlo hi hhi
    rw [Option.mem_def.mp hlo, Option.mem_def.mp hhi] at hxy
    simpa [FormState.disordered] using hxy
  have hle : ∀ (x : Option ℕ) (n : ℤ), n ∈ (x.map fun n : ℕ => (n : ℤ)) → 0 ≤ n := by
    intro x n hn
    obtain ⟨m, -, rfl⟩ := Option.map_eq_some_iff.mp hn
    exact Int.natCast_nonneg m
  have hle' : ∀ (x : Option ℕ) (n : ℚ), n ∈ (x.map fun n : ℕ => (n : ℚ)) → 0 ≤ n := by
    intro x n hn
    obtain ⟨m, -, rfl⟩ := Option.map_eq_some_iff.mp hn
    exact Nat.cast_nonneg m
  unfold sizeFilterOf
  split
  · rfl
  · show SizeFilter.validate _ = _
    rw [SizeFilter.validate_eq_ok_iff]
    refine ⟨⟨hle a, hle b, hle' c, hle' d⟩, ?_, ?_⟩
    · intro lo hlo hi hhi
      obtain ⟨m, hm, rfl⟩ := Option.map_eq_some_iff.mp hlo
      obtain ⟨n, hn, rfl⟩ := Option.map_eq_some_iff.mp hhi
      exact Int.ofNat_lt.mpr (hlt a b he m hm n hn)
    · intro lo hlo hi hhi
      obtain ⟨m, hm, rfl⟩ := Option.map_eq_some_iff.mp hlo
      obtain ⟨n, hn, rfl⟩ := Option.map_eq_some_iff.mp hhi
      exact Nat.cast_lt.mpr (hlt c d hr m hm n hn)

end Sizes

/-! ## What the server accepts -/

theorem length_pos_of_not_blank {name : String} (h : name.toList.all isJsSpace = false) :
    1 ≤ name.length := by
  rw [← String.length_toList, Nat.one_le_iff_ne_zero, ne_eq, List.length_eq_zero_iff]
  intro hnil
  rw [hnil] at h
  cases h

/-- The positive filters that the form has are in the body. -/
theorem Sizes.hasPositive {a b c d : Option ℕ} (h : Sizes J f a b c d)
    (hp : f.hasPositiveFilter = true) :
    (hasList (FormState.listOrNull f.industryFilter) || (hasSize (sizeFilterOf a b c d) ||
      (hasGeo (f.toPayload J).geoFilter || hasList (FormState.listOrNull f.techFilter)))) =
      true := by
  have hlist (l : List String) : hasList (FormState.listOrNull l) = !l.isEmpty := by
    unfold FormState.listOrNull hasList
    cases l <;> rfl
  have hgeo : hasGeo (f.toPayload J).geoFilter =
      (!f.countries.isEmpty || !f.regions.isEmpty || !f.cities.isEmpty) := by
    show hasGeo (if _ then _ else _) = _
    split
    · rfl
    · rename_i hno
      exact (Bool.eq_false_of_not_eq_true hno).symm
  rw [hlist, hlist, hgeo]
  by_cases hnone : a = none ∧ b = none ∧ c = none ∧ d = none
  · -- then the fields are empty
    obtain ⟨ha, hb, hc, hd⟩ := h.empty.mpr hnone
    unfold FormState.hasPositiveFilter at hp
    rw [ha, hb, hc, hd] at hp
    simp only [ne_eq, not_true, decide_false, Bool.or_false] at hp
    revert hp
    cases f.industryFilter.isEmpty <;> cases f.countries.isEmpty <;> cases f.regions.isEmpty <;>
      cases f.cities.isEmpty <;> cases f.techFilter.isEmpty <;> simp
  · rw [hasSize_sizeFilterOf.mpr hnone]
    simp

/-- The validator of an update that sets all filters. -/
theorem requirePositive_updateData {size : Option SizeFilter}
    (h : (hasList body.industryFilter || (hasSize size || (hasGeo body.geoFilter ||
      hasList body.techFilter))) = true) : (body.updateData size).requirePositive = .ok () := by
  have hprovided : (body.updateData size).provided =
      [hasList body.industryFilter, hasSize size, hasGeo body.geoFilter,
        hasList body.techFilter] := rfl
  unfold ICPProfileUpdate.requirePositive
  rw [hprovided, if_neg (List.cons_ne_nil _ _), if_neg]
  rintro ⟨hall, -⟩
  revert h hall
  cases hasList body.industryFilter <;> cases hasSize size <;> cases hasGeo body.geoFilter <;>
    cases hasList body.techFilter <;> decide

section

variable {a b c d : Option ℕ}

/-- What the server reads of a form that is sent to create a profile. -/
theorem create_eq_ok_iff (hs : Sizes J f a b c d) (h : f.submit J = some body)
    {data : ICPProfileCreate} : body.create = .ok data ↔
      (f.name.length ≤ 255 ∧ f.employeesFit J = true) ∧
        data = body.createData (sizeFilterOf a b c d) := by
  obtain ⟨-, hname, hp, he, hr, rfl⟩ := FormState.submit_eq_some_iff.mp h
  have hvalid : ((f.toPayload J).createData (sizeFilterOf a b c d)).validate = .ok () ↔
      f.name.length ≤ 255 := by
    unfold ICPProfileCreate.validate
    rw [Raises.check_eq_ok_iff, Raises.check_eq_ok_iff, if_pos]
    · show checkName f.name = .ok () ∧ checkOptional _ (sizeFilterOf a b c d) = .ok () ∧ _ ↔ _
      rw [checkOptional_sizeFilterOf hs he hr, checkName_eq_ok_iff]
      simp [length_pos_of_not_blank hname]
    · show (_ || (_ || (_ || (_ || false)))) = true
      rw [Bool.or_false]
      exact hs.hasPositive hp
  unfold ProfileBody.create
  rw [Raises.bind_eq_ok_iff]
  simp only [hs.readSize_iff, Raises.check_eq_ok_iff]
  constructor
  · rintro ⟨size, ⟨hfit, rfl⟩, hv, hdata⟩
    exact ⟨⟨hvalid.mp hv, hfit⟩, (Except.ok.inj hdata).symm⟩
  · rintro ⟨⟨hlen, hfit⟩, rfl⟩
    exact ⟨_, ⟨hfit, rfl⟩, hvalid.mpr hlen, rfl⟩

/-- What the server reads of a form that is sent to update a profile. -/
theorem update_eq_ok_iff (hs : Sizes J f a b c d) (h : f.submit J = some body)
    {data : ICPProfileUpdate} : body.update = .ok data ↔
      (f.name.length ≤ 255 ∧ f.employeesFit J = true) ∧
        data = body.updateData (sizeFilterOf a b c d) := by
  obtain ⟨-, hname, hp, he, hr, rfl⟩ := FormState.submit_eq_some_iff.mp h
  have hvalid : ((f.toPayload J).updateData (sizeFilterOf a b c d)).validate = .ok () ↔
      f.name.length ≤ 255 := by
    unfold ICPProfileUpdate.validate
    rw [Raises.check_eq_ok_iff, Raises.check_eq_ok_iff,
      requirePositive_updateData (hs.hasPositive hp)]
    show checkName f.name = .ok () ∧ checkOptional _ (sizeFilterOf a b c d) = .ok () ∧ _ ↔ _
    rw [checkOptional_sizeFilterOf hs he hr, checkName_eq_ok_iff]
    simp [length_pos_of_not_blank hname]
  unfold ProfileBody.update
  rw [Raises.bind_eq_ok_iff]
  simp only [hs.readSize_iff, Raises.check_eq_ok_iff]
  constructor
  · rintro ⟨size, ⟨hfit, rfl⟩, hv, hdata⟩
    exact ⟨⟨hvalid.mp hv, hfit⟩, (Except.ok.inj hdata).symm⟩
  · rintro ⟨⟨hlen, hfit⟩, rfl⟩
    exact ⟨_, ⟨hfit, rfl⟩, hvalid.mpr hlen, rfl⟩

end

theorem isOk_iff {ε α : Type} {x : Except ε α} : x.isOk = true ↔ ∃ a, x = .ok a := by
  cases x with
  | error e => exact iff_of_false Bool.false_ne_true fun ⟨_, h⟩ => nomatch h
  | ok a => exact iff_of_true rfl ⟨a, rfl⟩

/-- What the form sends the server accepts, whether to create or to update a profile, exactly if
the name is not too long and the bounds on the employees are written with digits. -/
theorem accepted_iff (h : f.submit J = some body) :
    (body.create.isOk = true ↔ f.name.length ≤ 255 ∧ f.employeesFit J = true) ∧
      (body.update.isOk = true ↔ f.name.length ≤ 255 ∧ f.employeesFit J = true) := by
  obtain ⟨a, b, c, d, hs⟩ := exists_sizes (FormState.submit_eq_some_iff.mp h).1
  simp only [isOk_iff, create_eq_ok_iff hs h, update_eq_ok_iff hs h, exists_and_left, exists_eq,
    and_true, and_self]

def retailForm : FormState :=
  { name := "Retail", industryFilter := ["Retail"], minEmployees := "10" }

theorem accepted_iff_retail :
    ((retailForm.toPayload .whole).create.isOk = true ↔
      retailForm.name.length ≤ 255 ∧ retailForm.employeesFit .whole = true) ∧
    ((retailForm.toPayload .whole).update.isOk = true ↔
      retailForm.name.length ≤ 255 ∧ retailForm.employeesFit .whole = true) :=
  accepted_iff (by decide +kernel)

end Frontend
end LeadPulse
