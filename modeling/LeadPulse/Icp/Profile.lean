import LeadPulse.Lib.Raises
import LeadPulse.Lib.Run
import LeadPulse.Lib.Table
import LeadPulse.Models
import Mathlib.Algebra.Ring.Int.Defs
import Mathlib.Algebra.Ring.Rat

/-!
# The filters of ICP profiles

`ICPProfileCreate` and `ICPProfileUpdate` with their validators, and the profiles that a sequence
of requests leaves in the table. A profile needs a positive filter: an industry, a size, a
region or a technology.

The validator of an update sees the patch without the row: it rejects a patch that empties all
four filters, and accepts one that empties the only filter that is set (`clearedOnly_unfiltered`).
By `filtersKept_iff` nothing else goes wrong.
-/

namespace LeadPulse

/-! ## Schemas -/

/-- An error of the validation, with the field it is about; `""` is the model as a whole. -/
structure ValidationError where
  field : String
  msg : String
deriving DecidableEq, Repr

/-- `SizeFilter`. In the JSON of a row a missing value reads like a null. -/
structure SizeFilter where
  minEmployees : Option ℤ := none
  maxEmployees : Option ℤ := none
  minRevenue : Option ℚ := none
  maxRevenue : Option ℚ := none
deriving DecidableEq, Repr

structure GeoFilter where
  countries : List String := []
  regions : List String := []
  cities : List String := []
deriving DecidableEq, Repr

structure NegativeFilters where
  excludedIndustries : List String := []
  excludedDomains : List String := []
deriving DecidableEq, Repr

structure ICPProfileCreate where
  name : String
  industryFilter : Option (List String) := none
  sizeFilter : Option SizeFilter := none
  geoFilter : Option GeoFilter := none
  techFilter : Option (List String) := none
  negativeFilters : Option NegativeFilters := none
deriving DecidableEq, Repr

/-- A field of a patch: not among `model_fields_set`, or set, possibly to null. -/
inductive FieldUpdate (α : Type) where
  | unset
  | set (value : Option α)
deriving DecidableEq, Repr

namespace FieldUpdate

variable {α : Type}

def isSet : FieldUpdate α → Bool
  | unset => false
  | set _ => true

/-- The attribute of the model; the default is `None`. -/
def value : FieldUpdate α → Option α
  | unset => none
  | set value => value

/-- The column after the patch. -/
def apply (stored : Option α) : FieldUpdate α → Option α
  | unset => stored
  | set value => value

end FieldUpdate

structure ICPProfileUpdate where
  name : FieldUpdate String := .unset
  industryFilter : FieldUpdate (List String) := .unset
  sizeFilter : FieldUpdate SizeFilter := .unset
  geoFilter : FieldUpdate GeoFilter := .unset
  techFilter : FieldUpdate (List String) := .unset
  negativeFilters : FieldUpdate NegativeFilters := .unset
deriving DecidableEq, Repr

/-- A row of `icp_profiles`. -/
structure ICPProfile where
  id : ℕ
  name : String
  industryFilter : Option (List String)
  sizeFilter : Option SizeFilter
  geoFilter : Option GeoFilter
  techFilter : Option (List String)
  negativeFilters : Option NegativeFilters
  isActive : Bool
deriving DecidableEq, Repr

/-! ## Validation -/

/-- `Field(min_length=1, max_length=255)`. -/
def checkName (name : String) : Except ValidationError Unit :=
  if name.length < 1 then .error ⟨"name", "String should have at least 1 character"⟩
  else if 255 < name.length then .error ⟨"name", "String should have at most 255 characters"⟩
  else .ok ()

/-- `Field(ge=0)`. -/
def checkNonneg {α : Type} [LE α] [Zero α] [DecidableLE α] (field : String) (value : Option α) :
    Except ValidationError Unit :=
  if value.all (0 ≤ ·) then .ok ()
  else .error ⟨field, "Input should be greater than or equal to 0"⟩

/-- A part of `validate_ranges`. -/
def checkRange {α : Type} [LT α] [DecidableLT α] (lower upper : Option α) (msg : String) :
    Except ValidationError Unit :=
  match lower, upper with
  | some lower, some upper => if lower < upper then .ok () else .error ⟨"size_filter", msg⟩
  | _, _ => .ok ()

def SizeFilter.validate (f : SizeFilter) : Except ValidationError Unit := do
  checkNonneg "min_employees" f.minEmployees
  checkNonneg "max_employees" f.maxEmployees
  checkNonneg "min_revenue" f.minRevenue
  checkNonneg "max_revenue" f.maxRevenue
  checkRange f.minEmployees f.maxEmployees "min_employees must be less than max_employees"
  checkRange f.minRevenue f.maxRevenue "min_revenue must be less than max_revenue"

/-- `bool(filter)` of a list. -/
def hasList (filter : Option (List String)) : Bool := filter.any (! ·.isEmpty)

/-- `has_size`. -/
def hasSize (filter : Option SizeFilter) : Bool :=
  filter.any fun f => f.minEmployees.isSome || f.maxEmployees.isSome || f.minRevenue.isSome ||
    f.maxRevenue.isSome

/-- `has_geo`. -/
def hasGeo (filter : Option GeoFilter) : Bool :=
  filter.any fun f => ! f.countries.isEmpty || ! f.regions.isEmpty || ! f.cities.isEmpty

def positiveFilterRequired : ValidationError :=
  ⟨"", "At least one positive filter (industry, size, geo, or tech) is required"⟩

def ICPProfileCreate.hasPositive (data : ICPProfileCreate) : Bool :=
  [hasList data.industryFilter, hasSize data.sizeFilter, hasGeo data.geoFilter,
    hasList data.techFilter].or

/-- A check of a value that may be `None`. -/
def checkOptional {α : Type} (check : α → Except ValidationError Unit) :
    Option α → Except ValidationError Unit
  | none => .ok ()
  | some value => check value

def ICPProfileCreate.validate (data : ICPProfileCreate) : Except ValidationError Unit := do
  checkName data.name
  checkOptional SizeFilter.validate data.sizeFilter
  if data.hasPositive then .ok () else .error positiveFilterRequired

namespace ICPProfileUpdate

/-- The positive filters of a patch: whether each is set, and whether its value is not empty. -/
def positive (data : ICPProfileUpdate) : List (Bool × Bool) :=
  [(data.industryFilter.isSet, hasList data.industryFilter.value),
   (data.sizeFilter.isSet, hasSize data.sizeFilter.value),
   (data.geoFilter.isSet, hasGeo data.geoFilter.value),
   (data.techFilter.isSet, hasList data.techFilter.value)]

/-- Of those that are set, whether they are not empty. -/
def provided (data : ICPProfileUpdate) : List Bool :=
  (data.positive.filter (·.1)).map (·.2)

/-- `require_at_least_one_positive_filter_if_clearing`. -/
def requirePositive (data : ICPProfileUpdate) : Except ValidationError Unit :=
  if data.provided = [] then .ok ()
  else if data.provided.all (! ·) ∧ data.provided.length = data.positive.length then
    .error positiveFilterRequired
  else .ok ()

def validate (data : ICPProfileUpdate) : Except ValidationError Unit := do
  checkOptional checkName data.name.value
  checkOptional SizeFilter.validate data.sizeFilter.value
  data.requirePositive

end ICPProfileUpdate

/-! ## Requests -/

def ICPProfile.hasPositive (row : ICPProfile) : Bool :=
  [hasList row.industryFilter, hasSize row.sizeFilter, hasGeo row.geoFilter,
    hasList row.techFilter].or

/-- The table `icp_profiles`, with the sequence that its ids come from. -/
structure IcpTable where
  profiles : List ICPProfile
  nextId : ℕ
  id_lt : ∀ row ∈ profiles, row.id < nextId
  keyed : Table.Keyed ICPProfile.id profiles

inductive IcpRequest where
  | create (data : ICPProfileCreate)
  | update (profileId : ℕ) (data : ICPProfileUpdate)
deriving DecidableEq, Repr

namespace IcpTable

def init : IcpTable where
  profiles := []
  nextId := 1
  id_lt := fun _ hrow => nomatch hrow
  keyed := List.nodup_nil

def get (table : IcpTable) (profileId : ℕ) : Option ICPProfile :=
  Table.get ICPProfile.id table.profiles profileId

/-- The row of a new profile. -/
def newProfile (table : IcpTable) (data : ICPProfileCreate) : ICPProfile where
  id := table.nextId
  name := data.name
  industryFilter := data.industryFilter
  sizeFilter := data.sizeFilter
  geoFilter := data.geoFilter
  techFilter := data.techFilter
  negativeFilters := data.negativeFilters
  isActive := false

theorem get_nextId (table : IcpTable) : table.get table.nextId = none :=
  Table.get_of_lt table.id_lt

/-- `create_profile`. -/
def createProfile (table : IcpTable) (data : ICPProfileCreate) : IcpTable where
  profiles := table.profiles ++ [table.newProfile data]
  nextId := table.nextId + 1
  id_lt := Table.lt_append table.id_lt rfl
  keyed := table.keyed.append table.get_nextId

end IcpTable

/-- The loop of `update_profile` over the fields that are set, with the name they leave. -/
def ICPProfile.patch (row : ICPProfile) (data : ICPProfileUpdate) (name : String) : ICPProfile :=
  { row with
    name := name
    industryFilter := data.industryFilter.apply row.industryFilter
    sizeFilter := data.sizeFilter.apply row.sizeFilter
    geoFilter := data.geoFilter.apply row.geoFilter
    techFilter := data.techFilter.apply row.techFilter
    negativeFilters := data.negativeFilters.apply row.negativeFilters }

namespace IcpTable

/-- The row after `update_profile`. A null in the column `name` makes the commit fail. -/
def patched (data : ICPProfileUpdate) (row : ICPProfile) : ICPProfile :=
  match data.name.apply (some row.name) with
  | none => row
  | some name => row.patch data name

theorem patched_id (data : ICPProfileUpdate) (row : ICPProfile) :
    (patched data row).id = row.id := by
  unfold patched
  split <;> rfl

/-- `update_profile`. -/
def updateProfile (table : IcpTable) (profileId : ℕ) (data : ICPProfileUpdate) : IcpTable where
  profiles := Table.modify ICPProfile.id table.profiles profileId (patched data)
  nextId := table.nextId
  id_lt := Table.lt_map table.id_lt (Table.key_modify (patched_id data))
  keyed := table.keyed.modify (patched_id data)

/-- A request that is not valid, or has no row, changes nothing. -/
def step (table : IcpTable) : IcpRequest → Option IcpTable
  | .create data =>
    match data.validate with
    | .error _ => some table
    | .ok () => some (table.createProfile data)
  | .update profileId data =>
    match data.validate with
    | .error _ => some table
    | .ok () => some (table.updateProfile profileId data)

end IcpTable

/-! ## The property and its condition -/

/-- Every profile has a positive filter. -/
def FiltersKept (table : IcpTable) : Prop := ∀ row ∈ table.profiles, row.hasPositive = true

/-- The positive filters of a row that a patch does not set: whether they are not empty. -/
def ICPProfile.kept (row : ICPProfile) (data : ICPProfileUpdate) : List Bool :=
  ([(data.industryFilter.isSet, hasList row.industryFilter),
    (data.sizeFilter.isSet, hasSize row.sizeFilter),
    (data.geoFilter.isSet, hasGeo row.geoFilter),
    (data.techFilter.isSet, hasList row.techFilter)].filter (! ·.1)).map (·.2)

/-- A patch that the validator accepts sets none or all of the positive filters, or sets one
that is not empty, or leaves one that is not empty. -/
def leavesFilter (table : IcpTable) : IcpRequest → Bool
  | .create _ => true
  | .update profileId data =>
    data.validate.isOk = false ∨ data.name = .set none ∨
      data.provided.length = 0 ∨ data.provided.length = data.positive.length ∨
      data.provided.or = true ∨
      (table.get profileId).all fun row => (row.kept data).or

/-! ## The validators -/

/-- A new profile has a positive filter. -/
theorem ICPProfileCreate.hasPositive_of_validate {data : ICPProfileCreate}
    (h : data.validate = .ok ()) : data.hasPositive = true := by
  obtain ⟨_, _, h⟩ := Raises.ok_of_bind h
  obtain ⟨_, _, h⟩ := Raises.ok_of_bind h
  by_contra hno
  rw [if_neg hno] at h
  cases h

namespace ICPProfileUpdate

variable {data : ICPProfileUpdate}

theorem requirePositive_of_validate (h : data.validate = .ok ()) :
    data.requirePositive = .ok () := by
  obtain ⟨_, _, h⟩ := Raises.ok_of_bind h
  obtain ⟨_, _, h⟩ := Raises.ok_of_bind h
  exact h

/-- What the validator of a patch rules out: all four filters set, and all of them empty. -/
theorem provided_of_validate (h : data.validate = .ok ())
    (hall : data.provided.length = data.positive.length) : data.provided.or = true := by
  have hpos := requirePositive_of_validate h
  unfold requirePositive at hpos
  have hne : data.provided ≠ [] := by
    intro hnil
    rw [hnil] at hall
    cases hall
  rw [if_neg hne] at hpos
  by_contra hor
  have hempty : data.provided.all (! ·) = true := by
    rw [List.all_eq_true]
    intro b hb
    cases b with
    | false => rfl
    | true => exact absurd (List.any_eq_true.mpr ⟨true, hb, rfl⟩) hor
  rw [if_pos ⟨hempty, hall⟩] at hpos
  cases hpos

end ICPProfileUpdate

/-! ## The merge of a patch and a row -/

namespace ICPProfile

variable {row : ICPProfile} {data : ICPProfileUpdate}

/-- The filters of a patched row are those that the patch sets and those that it leaves. -/
theorem hasPositive_patch (name : String) :
    (row.patch data name).hasPositive = (data.provided.or || (row.kept data).or) := by
  unfold hasPositive patch kept ICPProfileUpdate.provided ICPProfileUpdate.positive
  cases data.industryFilter <;> cases data.sizeFilter <;> cases data.geoFilter <;>
    cases data.techFilter <;>
    simp [FieldUpdate.isSet, FieldUpdate.apply, FieldUpdate.value, Bool.or_comm, Bool.or_assoc,
      Bool.or_left_comm]

/-- A patch that sets no positive filter leaves all of them. -/
theorem kept_of_provided (h : data.provided.length = 0) : (row.kept data).or = row.hasPositive := by
  unfold hasPositive kept
  unfold ICPProfileUpdate.provided ICPProfileUpdate.positive at h
  revert h
  cases data.industryFilter <;> cases data.sizeFilter <;> cases data.geoFilter <;>
    cases data.techFilter <;> simp [FieldUpdate.isSet]

end ICPProfile

/-! ## One step -/

namespace IcpTable

variable {table table' : IcpTable} {request : IcpRequest}

theorem patched_null {data : ICPProfileUpdate} (h : data.name = .set none) (row : ICPProfile) :
    patched data row = row := by
  unfold patched
  rw [h]
  rfl

theorem hasPositive_patched {data : ICPProfileUpdate} {row : ICPProfile}
    (h : data.name ≠ .set none) :
    (patched data row).hasPositive = (data.provided.or || (row.kept data).or) := by
  unfold patched
  split
  · rename_i hname
    cases hn : data.name with
    | unset =>
      rw [hn] at hname
      cases hname
    | set value =>
      rw [hn] at hname
      have hnull : value = none := hname
      exact absurd (hn.trans (congrArg _ hnull)) h
  · exact ICPProfile.hasPositive_patch _

/-- A patch on a row with a positive filter. -/
theorem hasPositive_of_leavesFilter {data : ICPProfileUpdate} {row : ICPProfile}
    (hvalid : data.validate = .ok ()) (hrow : row.hasPositive = true)
    (hget : table.get row.id = some row)
    (hc : leavesFilter table (.update row.id data) = true) :
    (patched data row).hasPositive = true := by
  by_cases hnull : data.name = .set none
  · rw [patched_null hnull]
    exact hrow
  · rw [hasPositive_patched hnull, Bool.or_eq_true]
    have hc := of_decide_eq_true hc
    rw [hvalid, hget] at hc
    rcases hc with hbad | hname | hnone | hall | hgiven | hkept
    · cases hbad
    · exact absurd hname hnull
    · right
      rw [ICPProfile.kept_of_provided hnone]
      exact hrow
    · exact .inl (ICPProfileUpdate.provided_of_validate hvalid hall)
    · exact .inl hgiven
    · exact .inr hkept

theorem filtersKept_step (h : FiltersKept table) (hc : leavesFilter table request = true)
    (hs : table.step request = some table') : FiltersKept table' := by
  cases request with
  | create data =>
    simp only [step] at hs
    split at hs
    · cases hs
      exact h
    · rename_i hvalid
      cases hs
      intro row hrow
      rcases List.mem_append.mp hrow with hold | hnew
      · exact h row hold
      · obtain rfl := List.mem_singleton.mp hnew
        exact ICPProfileCreate.hasPositive_of_validate hvalid
  | update profileId data =>
    simp only [step] at hs
    split at hs
    · cases hs
      exact h
    · rename_i hvalid
      cases hs
      intro row hrow
      obtain ⟨old, hold, rfl⟩ := List.mem_map.mp hrow
      split
      · rename_i hid
        subst hid
        exact hasPositive_of_leavesFilter hvalid (h old hold) (Table.get_of_mem table.keyed hold) hc
      · exact h old hold

/-- A patch without the condition is accepted, and leaves its row without a filter. -/
theorem not_filtersKept_step (hc : ¬ leavesFilter table request = true)
    (hs : table.step request = some table') : ¬ FiltersKept table' := by
  cases request with
  | create data => exact absurd rfl hc
  | update profileId data =>
    have hc : ¬ (data.validate.isOk = false ∨ data.name = .set none ∨
        data.provided.length = 0 ∨ data.provided.length = data.positive.length ∨
        data.provided.or = true ∨
        (table.get profileId).all (fun row => (row.kept data).or) = true) := by
      simpa [leavesFilter] using hc
    have hvalid : data.validate = .ok () := by
      cases hv : data.validate with
      | error e =>
        rw [hv] at hc
        exact absurd (.inl rfl) hc
      | ok u => rfl
    simp only [not_or] at hc
    obtain ⟨_, hname, _, _, hgiven, hall⟩ := hc
    cases hget : table.get profileId with
    | none =>
      rw [hget] at hall
      exact absurd rfl hall
    | some row =>
      rw [hget] at hall
      simp only [step, hvalid] at hs
      cases hs
      intro hkept
      -- the patched row is in the table, without a positive filter
      have hmem : patched data row ∈ (table.updateProfile profileId data).profiles := by
        have hid : row.id = profileId := Table.key_of_get hget
        refine List.mem_map.mpr ⟨row, Table.mem_of_get hget, if_pos hid⟩
      have hpos := hkept _ hmem
      rw [hasPositive_patched hname, Bool.or_eq_true] at hpos
      rcases hpos with hpos | hpos
      · exact hgiven hpos
      · exact hall hpos

end IcpTable

/-! ## Runs -/

/-- All profiles keep a positive filter exactly if each patch that is accepted sets none or all
of the positive filters, or sets one that is not empty, or leaves one that is not empty. -/
theorem filtersKept_iff (requests : List IcpRequest) :
    Run.AllStates IcpTable.step FiltersKept IcpTable.init requests ↔
      Run.AllSteps IcpTable.step (fun table request => leavesFilter table request = true)
        IcpTable.init requests :=
  Run.allStates_iff_allSteps (I := FiltersKept) (fun _ h => h)
    (fun _ _ _ h hc hs => IcpTable.filtersKept_step h hc hs)
    (fun _ _ _ _ hc hs => IcpTable.not_filtersKept_step hc hs)
    (fun _ hrow => absurd hrow List.not_mem_nil) requests

/-- A profile with an industry only, and a patch that sets just this filter, to null. -/
theorem clearedOnly_unfiltered :
    ¬ Run.AllStates IcpTable.step FiltersKept IcpTable.init
      [.create { name := "Retail", industryFilter := some ["Retail"] },
       .update 1 { industryFilter := .set none }] := by
  refine Run.not_allStates (q := fun table => table.profiles.any (! ·.hasPositive))
    (fun table h => ?_) ?_
  · rw [List.any_eq_false]
    intro row hrow
    rw [h row hrow]
    decide
  · decide +kernel

end LeadPulse
