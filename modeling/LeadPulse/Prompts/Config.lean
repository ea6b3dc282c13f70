import LeadPulse.Enrichment.CompanyInfo
import LeadPulse.Prompts.Criteria

/-!
# The configuration of the prompts

The parts of the prompts that an administrator can change: the signal types, the company identity
and the roles of decision makers, one row of `prompt_configs` for each, as JSON. The endpoints of
`api/v1/prompt_config.py` check and store a value, and `load_prompt_config` makes a bundle of the
rows. It skips what it cannot use, or takes the built-in part instead. `create_llm_client` loads the
bundle once for an LLM service, or takes the built-in one if that fails, and the prompts of the
service are made of it for as long as it lives.

By `toldAsSaid_iff` nothing is ever skipped, and a service is told something else than what had been
said when it was created in two cases: the loading has failed, or an `UPDATE` has left out a column
whose value is the one that the request has loaded, although another request had changed it
meanwhile.
-/

namespace LeadPulse

/-! ## JSON values -/

namespace Enrichment.Json

/-- `value[key]`, if the value is an object with the key. -/
def field : Json → String → Option Json
  | obj members, key => members.lookup key
  | _, _ => none

/-- The truth values are numbers. -/
def number : Json → Option ℚ
  | bool b => some (if b then 1 else 0)
  | num q => some q
  | _ => none

mutual

/-- `==` of Python; the order of the keys of an object says nothing. -/
def same : Json → Json → Bool
  | null, null => true
  | str s, str t => s = t
  | arr items, arr items' => sameItems items items'
  | obj members, obj members' =>
    members.length = members'.length && sameMembers members members'
  | bool b, value => value.number = some (if b then 1 else 0)
  | num q, value => value.number = some q
  | _, _ => false

def sameItems : List Json → List Json → Bool
  | [], [] => true
  | value :: items, value' :: items' => value.same value' && sameItems items items'
  | _, _ => false

def sameMembers : List (String × Json) → List (String × Json) → Bool
  | [], _ => true
  | (key, value) :: members, members' =>
    (match members'.lookup key with
    | some value' => value.same value'
    | none => false) && sameMembers members members'

end

end Enrichment.Json

namespace Prompts

open Enrichment (Json)

/-! ## The parts -/

inductive ConfigKey where
  | signalTypeDefinitions
  | companyIdentity
  | decisionMakerRoles
deriving DecidableEq, Repr

namespace ConfigKey

def name : ConfigKey → String
  | signalTypeDefinitions => "signal_type_definitions"
  | companyIdentity => "company_identity"
  | decisionMakerRoles => "decision_maker_roles"

/-- `_VALID_KEYS` -/
def ofName (configKey : String) : Option ConfigKey :=
  [signalTypeDefinitions, companyIdentity, decisionMakerRoles].find? (·.name = configKey)

end ConfigKey

/-- A signal type; the values of its fields are not checked. -/
structure SignalTypeDefinition where
  key : Json
  description : Json
  relevanceHints : Json

structure CompanyIdentity where
  name : Json
  tagline : Json

structure PromptConfigBundle where
  signalTypes : List SignalTypeDefinition
  companyIdentity : CompanyIdentity
  decisionMakerRoles : List String
  icpCriteria : List Char

def signalType (key description : String) (relevanceHints : Json) : SignalTypeDefinition :=
  ⟨.str key, .str description, relevanceHints⟩

def defaultSignalTypes : List SignalTypeDefinition :=
  [signalType "hiring_surge"
     ("Multiple open roles for field service professionals (monteurs, engineers, inspecteurs, " ++
      "service technici, planners) or rapid headcount growth in operations")
     (.str "Look for monteurs, engineers, inspecteurs, werkvoorbereiders, planners"),
   signalType "technology_adoption"
     ("Migrating to or adopting new operational systems (ERP, CRM, FSM), cloud infrastructure, " ++
      "IoT platforms, or major tooling changes")
     .null,
   signalType "digital_transformation"
     ("Announcing digital transformation initiatives, innovation programmes, operational " ++
      "excellence projects, legacy system replacements, or AI/data strategy")
     .null,
   signalType "workforce_challenge"
     ("Mentions of personnel shortages, aging workforce, knowledge retention issues, difficulty " ++
      "finding qualified technicians/monteurs, or high employee turnover")
     .null,
   signalType "funding_round"
     "Investment, acquisition, or capital announcement enabling growth"
     .null,
   signalType "leadership_change"
     "New CIO, CDO, COO, or VP Operations/IT/Innovation appointment or departure"
     .null,
   signalType "expansion"
     "New offices, service regions, entering new markets or geographies"
     .null,
   signalType "partnership"
     "Strategic partnerships, integrations, or joint ventures with technology providers"
     .null,
   signalType "product_launch"
     "New product, service proposition, or major feature release"
     .null,
   signalType "no_signal"
     "Content does not indicate buying intent (e.g. team events, culture posts, generic news)"
     .null]

def defaultCompanyIdentity : CompanyIdentity where
  name := .str "fresk.digital"
  tagline := .str ("a digital product studio that builds intelligent tools for field service " ++
    "professionals and frontline knowledge workers")

def defaultDecisionMakerRoles : List String :=
  ["COO", "CIO", "CDO", "CTO", "CEO", "VP Operations", "VP IT", "VP Digital", "VP Innovation",
    "Director Operations", "Director IT", "Director Digital", "Director Innovation",
    "Hoofd Operations", "Hoofd IT", "Hoofd Digital", "Hoofd Innovation",
    "HR/Employee Experience", "Divisie-/Afdelingsmanager Operations", "Innovatiemanager"]

/-- `PromptConfigBundle.defaults` -/
def defaults : PromptConfigBundle where
  signalTypes := defaultSignalTypes
  companyIdentity := defaultCompanyIdentity
  decisionMakerRoles := defaultDecisionMakerRoles
  icpCriteria := joinLines (defaultIcpCriteria.map String.toList)

/-! ## Requests -/

def unprocessable (detail : String) : HTTPException := ⟨422, detail⟩

/-- `isinstance(item, dict) and "key" in item and "description" in item` -/
def isSignalType (item : Json) : Bool :=
  (item.field "key").isSome && (item.field "description").isSome

def validateSignalTypes : Json → Except HTTPException Unit
  | .arr (item :: items) =>
    if (item :: items).all isSignalType then .ok ()
    else .error (unprocessable "Each signal type must have 'key' and 'description' fields")
  | _ => .error (unprocessable "signal_type_definitions must be a non-empty list")

def validateCompanyIdentity (value : Json) : Except HTTPException Unit :=
  if (value.field "name").isSome && (value.field "tagline").isSome then .ok ()
  else .error (unprocessable "company_identity must have 'name' and 'tagline' fields")

def validateDecisionMakerRoles : Json → Except HTTPException Unit
  | .arr (_ :: _) => .ok ()
  | _ => .error (unprocessable "decision_maker_roles must be a non-empty list of strings")

/-- `_VALIDATORS` -/
def validate : ConfigKey → Json → Except HTTPException Unit
  | .signalTypeDefinitions => validateSignalTypes
  | .companyIdentity => validateCompanyIdentity
  | .decisionMakerRoles => validateDecisionMakerRoles

/-- `default_values` of `reset_prompt_config`. -/
def defaultValue : ConfigKey → Json
  | .signalTypeDefinitions => .arr (defaultSignalTypes.map fun st =>
      .obj [("key", st.key), ("description", st.description),
        ("relevance_hints", st.relevanceHints)])
  | .companyIdentity =>
    .obj [("name", defaultCompanyIdentity.name), ("tagline", defaultCompanyIdentity.tagline)]
  | .decisionMakerRoles => .arr (defaultDecisionMakerRoles.map .str)

/-- Every default passes its check. -/
theorem validate_defaultValue (key : ConfigKey) : validate key (defaultValue key) = .ok () := by
  cases key <;> rfl

/-- The body of an update, a list or an object. -/
structure PromptConfigUpdate where
  configValue : Json
  container : match configValue with | .arr _ | .obj _ => True | _ => False

/-- The table `prompt_configs`, whose rows have passed the checks. -/
structure PromptTable where
  rows : ConfigKey → Option Json
  valid : ∀ key value, rows key = some value → validate key value = .ok ()

/-- A request between its `SELECT` and its commit: the value that it has loaded, if there was a
row, and the one that it sets. -/
structure PromptWrite where
  key : ConfigKey
  loaded : Option Json
  value : Json
  valid : validate key value = .ok ()

/-! ## Loading -/

/-- `s.get("relevance_hints")` is `None` if there are none. -/
def signalType? (item : Json) : Option SignalTypeDefinition :=
  match item.field "key", item.field "description" with
  | some key, some description =>
    some ⟨key, description, (item.field "relevance_hints").getD .null⟩
  | _, _ => none

def loadSignalTypes : Option Json → List SignalTypeDefinition
  | some (.arr (item :: items)) => (item :: items).filterMap signalType?
  | _ => defaultSignalTypes

def loadCompanyIdentity (raw : Option Json) : CompanyIdentity :=
  match raw.bind (·.field "name"), raw.bind (·.field "tagline") with
  | some name, some tagline => ⟨name, tagline⟩
  | _, _ => defaultCompanyIdentity

/-- `str(value)`; `text` is the text of a value that is no string. -/
def valueText (text : Json → String) : Json → String
  | .str s => s
  | value => text value

def loadDecisionMakerRoles (text : Json → String) : Option Json → List String
  | some (.arr (role :: roles)) => (role :: roles).map (valueText text)
  | _ => defaultDecisionMakerRoles

def loadPromptConfig (text : Json → String) (rows : ConfigKey → Option Json)
    (profile : Option ICPProfile) : PromptConfigBundle where
  signalTypes := loadSignalTypes (rows .signalTypeDefinitions)
  companyIdentity := loadCompanyIdentity (rows .companyIdentity)
  decisionMakerRoles := loadDecisionMakerRoles text (rows .decisionMakerRoles)
  icpCriteria := icpCriteria profile

/-! ## The system messages -/

/-- What the `build_system_message` functions put into their texts. -/
structure SystemParts where
  signalTypeDefinitions : List String
  companyName : String
  companyTagline : String
  decisionMakerRoles : List String

/-- A line of the classification prompt. The relevance hints are in no prompt. -/
def typeLine (text : Json → String) (key description : Json) : String :=
  "- " ++ valueText text key ++ ": " ++ valueText text description

/-- An empty list stands for the built-in one. -/
def orDefault {α : Type} (values builtIn : List α) : List α :=
  if values.isEmpty then builtIn else values

def PromptConfigBundle.parts (text : Json → String) (bundle : PromptConfigBundle) :
    SystemParts where
  signalTypeDefinitions := (orDefault bundle.signalTypes defaultSignalTypes).map fun st =>
    typeLine text st.key st.description
  companyName := valueText text bundle.companyIdentity.name
  companyTagline := valueText text bundle.companyIdentity.tagline
  decisionMakerRoles := orDefault bundle.decisionMakerRoles defaultDecisionMakerRoles

/-! ## The endpoints -/

namespace PromptTable

/-- The commit of a value. -/
def write (table : PromptTable) (r : PromptWrite) : PromptTable where
  rows := Function.update table.rows r.key (some r.value)
  valid := by
    intro key value h
    by_cases hkey : key = r.key
    · subst hkey
      rw [Function.update_self] at h
      obtain rfl := Option.some.inj h
      exact r.valid
    · rw [Function.update_of_ne hkey] at h
      exact table.valid key value h

end PromptTable

/-- For a key that `repr` only puts into quotes. -/
def unknownConfigKey (configKey validKeys : String) : HTTPException :=
  ⟨400, "Unknown config key: '" ++ configKey ++ "'" ++ validKeys⟩

/-- `update_prompt_config`, up to the `SELECT`. -/
def putPromptConfig (table : PromptTable) (configKey : String) (body : PromptConfigUpdate) :
    Except HTTPException PromptWrite :=
  match ConfigKey.ofName configKey with
  | none =>
    .error (unknownConfigKey configKey
      ". Valid keys: ['company_identity', 'decision_maker_roles', 'signal_type_definitions']")
  | some key =>
    match h : validate key body.configValue with
    | .error e => .error e
    | .ok () => .ok ⟨key, table.rows key, body.configValue, h⟩

/-- `reset_prompt_config`, up to the `SELECT`. -/
def resetPromptConfig (table : PromptTable) (configKey : String) :
    Except HTTPException PromptWrite :=
  match ConfigKey.ofName configKey with
  | none => .error (unknownConfigKey configKey "")
  | some key => .ok ⟨key, table.rows key, defaultValue key, validate_defaultValue key⟩

/-- An LLM service: the bundle that it was created with, and what had been said then. -/
structure LLMService where
  promptConfig : PromptConfigBundle
  said : ConfigKey → Option Json

/-- How `load_prompt_config` ends: with the rows and the active profile, or with an exception. -/
inductive Loading where
  | loaded (profile : Option ICPProfile)
  | failed

structure PromptWorld where
  table : PromptTable
  /-- The requests in flight. -/
  requests : ℕ → Option PromptWrite
  /-- What the last request said that was committed. -/
  said : ConfigKey → Option Json
  /-- The services that were created. -/
  services : List LLMService

inductive PromptEvent where
  | put (i : ℕ) (configKey : String) (body : PromptConfigUpdate)
  | reset (i : ℕ) (configKey : String)
  | commit (i : ℕ)
  | abort (i : ℕ)
  | create (loading : Loading)

namespace PromptWorld

def init (table : PromptTable) : PromptWorld where
  table := table
  requests := fun _ => none
  said := table.rows
  services := []

/-- A request begins, unless it is refused. -/
def start (w : PromptWorld) (i : ℕ) (request : Except HTTPException PromptWrite) : PromptWorld :=
  match request with
  | .error _ => w
  | .ok r => { w with requests := Function.update w.requests i (some r) }

def finish (w : PromptWorld) (i : ℕ) : PromptWorld :=
  { w with requests := Function.update w.requests i none }

/-- The commit of a request, `none` if it fails. -/
def commit (w : PromptWorld) (r : PromptWrite) : Option PromptWorld :=
  match r.loaded, w.table.rows r.key with
  | none, none =>
    some { w with
      table := w.table.write r
      said := Function.update w.said r.key (some r.value) }
  -- the key is unique
  | none, some _ => none
  | some loaded, some _ =>
    some { w with
      table := if r.value.same loaded then w.table else w.table.write r
      said := Function.update w.said r.key (some r.value) }
  | some _, none => none

/-- `create_llm_client`, up to the keys of the provider. -/
def createLlmClient (text : Json → String) (w : PromptWorld) (loading : Loading) : LLMService where
  promptConfig :=
    match loading with
    | .loaded profile => loadPromptConfig text w.table.rows profile
    | .failed => defaults
  said := w.said

def step (text : Json → String) (w : PromptWorld) : PromptEvent → Option PromptWorld
  | .put i configKey body =>
    if (w.requests i).isSome then none
    else some (w.start i (putPromptConfig w.table configKey body))
  | .reset i configKey =>
    if (w.requests i).isSome then none
    else some (w.start i (resetPromptConfig w.table configKey))
  | .commit i => (w.requests i).map fun r => ((w.commit r).getD w).finish i
  | .abort i => (w.requests i).map fun _ => w.finish i
  | .create loading => some { w with services := w.createLlmClient text loading :: w.services }

end PromptWorld

/-! ## What is told -/

/-- The prompts say of a part what the value says, item by item. -/
def Tells (text : Json → String) (bundle : PromptConfigBundle) : ConfigKey → Json → Prop
  | .signalTypeDefinitions, value => ∃ items, value = .arr items ∧
      List.Forall₂ (fun item line => ∃ key ∈ item.field "key",
        ∃ description ∈ item.field "description", line = typeLine text key description)
        items (bundle.parts text).signalTypeDefinitions
  | .companyIdentity, value =>
    (∃ name ∈ value.field "name", (bundle.parts text).companyName = valueText text name) ∧
      ∃ tagline ∈ value.field "tagline",
        (bundle.parts text).companyTagline = valueText text tagline
  | .decisionMakerRoles, value => ∃ items, value = .arr items ∧
      (bundle.parts text).decisionMakerRoles = items.map (valueText text)

/-- The prompts have the built-in part. -/
def TellsDefault (text : Json → String) (bundle : PromptConfigBundle) : ConfigKey → Prop
  | .signalTypeDefinitions => (bundle.parts text).signalTypeDefinitions =
      (defaults.parts text).signalTypeDefinitions
  | .companyIdentity => (bundle.parts text).companyName = (defaults.parts text).companyName ∧
      (bundle.parts text).companyTagline = (defaults.parts text).companyTagline
  | .decisionMakerRoles => (bundle.parts text).decisionMakerRoles =
      (defaults.parts text).decisionMakerRoles

/-- The prompts say of each part what was said of it; the built-in part is told of a part of which
nothing was said. -/
def TellsAll (text : Json → String) (bundle : PromptConfigBundle)
    (said : ConfigKey → Option Json) : Prop :=
  ∀ key, match said key with
    | some value => Tells text bundle key value
    | none => TellsDefault text bundle key

/-- Every service is told what had been said when it was created, and one that loads the
configuration now would be. -/
structure ToldAsSaid (text : Json → String) (w : PromptWorld) : Prop where
  service : ∀ service ∈ w.services, TellsAll text service.promptConfig service.said
  next : ∀ profile, TellsAll text (loadPromptConfig text w.table.rows profile) w.said

/-- A request is committed that says again what it has loaded, after the row has been changed to say
something else. -/
def Overlooked (text : Json → String) (w : PromptWorld) : PromptEvent → Prop
  | .commit i => ∃ r ∈ w.requests i, ∃ loaded ∈ r.loaded, r.value.same loaded = true ∧
      (w.table.rows r.key).isSome = true ∧
      ¬ Tells text (loadPromptConfig text w.table.rows none) r.key r.value
  | _ => False

/-- The loading fails for a new service, although something else than the built-in parts was
said. -/
def FallsBack (text : Json → String) (w : PromptWorld) : PromptEvent → Prop
  | .create .failed => ¬ TellsAll text defaults w.said
  | _ => False

section

variable {text : Json → String} {profile profile' : Option ICPProfile}
  {rows rows' : ConfigKey → Option Json} {key : ConfigKey} {value : Json} {w w' : PromptWorld}
  {ev : PromptEvent}

theorem orDefault_cons {α : Type} (v : α) (values builtIn : List α) :
    orDefault (v :: values) builtIn = v :: values := rfl

/-- The loader skips no item of a list that has passed its check. -/
theorem forall₂_signalTypes {items : List Json} (h : items.all isSignalType = true) :
    List.Forall₂ (fun item st => item.field "key" = some st.key ∧
      item.field "description" = some st.description) items (items.filterMap signalType?) := by
  induction items with
  | nil => exact .nil
  | cons item items ih =>
    rw [List.all_cons, Bool.and_eq_true, isSignalType, Bool.and_eq_true] at h
    obtain ⟨⟨hkey, hdescription⟩, hitems⟩ := h
    obtain ⟨k, hk⟩ := Option.isSome_iff_exists.mp hkey
    obtain ⟨d, hd⟩ := Option.isSome_iff_exists.mp hdescription
    have hitem : signalType? item = some ⟨k, d, (item.field "relevance_hints").getD .null⟩ := by
      rw [signalType?, hk, hd]
    rw [List.filterMap_cons_some hitem]
    exact .cons ⟨hk, hd⟩ (ih hitems)

theorem forall₂_typeLines {item : Json} {items : List Json}
    (h : (item :: items).all isSignalType = true) :
    List.Forall₂ (fun item line => ∃ key ∈ item.field "key",
      ∃ description ∈ item.field "description", line = typeLine text key description)
      (item :: items) ((orDefault (loadSignalTypes (some (.arr (item :: items))))
        defaultSignalTypes).map fun st => typeLine text st.key st.description) := by
  have hlines := forall₂_signalTypes h
  rw [loadSignalTypes]
  -- the list is not empty, so that it is not taken for the built-in one
  cases hst : (item :: items).filterMap signalType? with
  | nil =>
    rw [hst] at hlines
    cases hlines
  | cons st sts =>
    rw [hst] at hlines
    rw [orDefault_cons, List.forall₂_map_right_iff]
    exact hlines.imp fun item st hst => ⟨_, hst.1, _, hst.2, rfl⟩

theorem parts_signalTypeDefinitions :
    ((loadPromptConfig text rows profile).parts text).signalTypeDefinitions =
      (orDefault (loadSignalTypes (rows .signalTypeDefinitions)) defaultSignalTypes).map fun st =>
        typeLine text st.key st.description := rfl

/-- Of a value that has passed its check nothing is skipped. -/
theorem tells_of_row (h : rows key = some value) (hvalid : validate key value = .ok ()) :
    Tells text (loadPromptConfig text rows profile) key value := by
  cases key with
  | signalTypeDefinitions =>
    change validateSignalTypes value = .ok () at hvalid
    unfold validateSignalTypes at hvalid
    split at hvalid
    · rename_i item items
      split at hvalid
      · rename_i hall
        refine ⟨_, rfl, ?_⟩
        rw [parts_signalTypeDefinitions, h]
        exact forall₂_typeLines hall
      · cases hvalid
    · cases hvalid
  | companyIdentity =>
    change validateCompanyIdentity value = .ok () at hvalid
    unfold validateCompanyIdentity at hvalid
    split at hvalid
    · rename_i hfields
      rw [Bool.and_eq_true] at hfields
      obtain ⟨name, hname⟩ := Option.isSome_iff_exists.mp hfields.1
      obtain ⟨tagline, htagline⟩ := Option.isSome_iff_exists.mp hfields.2
      have hload : loadCompanyIdentity (rows .companyIdentity) = ⟨name, tagline⟩ := by
        simp [loadCompanyIdentity, h, hname, htagline]
      refine ⟨⟨name, hname, ?_⟩, tagline, htagline, ?_⟩
      · exact congrArg (fun identity => valueText text identity.name) hload
      · exact congrArg (fun identity => valueText text identity.tagline) hload
    · cases hvalid
  | decisionMakerRoles =>
    change validateDecisionMakerRoles value = .ok () at hvalid
    unfold validateDecisionMakerRoles at hvalid
    split at hvalid
    · refine ⟨_, rfl, ?_⟩
      show orDefault (loadDecisionMakerRoles text (rows .decisionMakerRoles)) _ = _
      rw [h]
      rfl
    · cases hvalid

theorem tellsDefault_of_row (h : rows key = none) :
    TellsDefault text (loadPromptConfig text rows profile) key := by
  cases key with
  | signalTypeDefinitions =>
    simp only [TellsDefault, PromptConfigBundle.parts, loadPromptConfig, h]
    rfl
  | companyIdentity =>
    simp only [TellsDefault, PromptConfigBundle.parts, loadPromptConfig, h]
    exact ⟨rfl, rfl⟩
  | decisionMakerRoles =>
    simp only [TellsDefault, PromptConfigBundle.parts, loadPromptConfig, h]
    rfl

/-- A part depends on its own row only. -/
theorem tells_congr (h : rows key = rows' key) :
    Tells text (loadPromptConfig text rows profile) key value ↔
      Tells text (loadPromptConfig text rows' profile') key value := by
  cases key <;> simp only [Tells, PromptConfigBundle.parts, loadPromptConfig, h]

theorem tellsDefault_congr (h : rows key = rows' key) :
    TellsDefault text (loadPromptConfig text rows profile) key ↔
      TellsDefault text (loadPromptConfig text rows' profile') key := by
  cases key <;> simp only [TellsDefault, PromptConfigBundle.parts, loadPromptConfig, h]

/-! ## Steps -/

theorem toldAsSaid_init (table : PromptTable) : ToldAsSaid text (.init table) where
  service := fun _ h => absurd h List.not_mem_nil
  next := by
    intro profile key
    show match table.rows key with
      | some value => Tells text (loadPromptConfig text table.rows profile) key value
      | none => TellsDefault text (loadPromptConfig text table.rows profile) key
    cases h : table.rows key with
    | none => exact tellsDefault_of_row h
    | some value => exact tells_of_row h (table.valid key value h)

/-- A request for one part leaves the others as they are. -/
theorem ToldAsSaid.update (h : ToldAsSaid text w) (hservices : w'.services = w.services)
    (hsaid : ∀ k ≠ key, w'.said k = w.said k)
    (hrows : ∀ k ≠ key, w'.table.rows k = w.table.rows k) (hkey : w'.said key = some value)
    (htells : ∀ profile, Tells text (loadPromptConfig text w'.table.rows profile) key value) :
    ToldAsSaid text w' where
  service := by
    rw [hservices]
    exact h.service
  next := by
    intro profile k
    by_cases hk : k = key
    · subst hk
      rw [hkey]
      exact htells profile
    · have hold := h.next profile k
      rw [hsaid k hk]
      cases hs : w.said k with
      | none =>
        rw [hs] at hold
        exact (tellsDefault_congr (hrows k hk)).mpr hold
      | some v =>
        rw [hs] at hold
        exact (tells_congr (hrows k hk)).mpr hold

/-- A value that is written is told. -/
theorem tells_write (table : PromptTable) (r : PromptWrite) (profile : Option ICPProfile) :
    Tells text (loadPromptConfig text (table.write r).rows profile) r.key r.value :=
  tells_of_row (Function.update_self _ _ _) r.valid

/-- What a commit does: it fails, or it writes, or it leaves a row that it has loaded with the same
value. -/
theorem PromptWorld.commit_cases (r : PromptWrite) (w : PromptWorld) :
    w.commit r = none ∨
    w.commit r = some { w with
      table := w.table.write r
      said := Function.update w.said r.key (some r.value) } ∨
    (∃ loaded ∈ r.loaded, r.value.same loaded = true ∧ (w.table.rows r.key).isSome = true) ∧
      w.commit r = some { w with said := Function.update w.said r.key (some r.value) } := by
  unfold PromptWorld.commit
  cases hloaded : r.loaded with
  | none =>
    cases hrow : w.table.rows r.key with
    | none => exact .inr (.inl rfl)
    | some row => exact .inl rfl
  | some loaded =>
    cases hrow : w.table.rows r.key with
    | none => exact .inl rfl
    | some row =>
      cases hsame : r.value.same loaded with
      | false => exact .inr (.inl (by simp [hsame]))
      | true => exact .inr (.inr ⟨⟨loaded, rfl, hsame, rfl⟩, by simp [hsame]⟩)

theorem ToldAsSaid.commit (h : ToldAsSaid text w) {i : ℕ} {r : PromptWrite}
    (hi : w.requests i = some r) (hc : ¬ Overlooked text w (.commit i)) :
    ToldAsSaid text ((w.commit r).getD w) := by
  rcases w.commit_cases r with hfail | hwrite | ⟨⟨loaded, hloaded, hsame, hrow⟩, hkeep⟩
  · rw [hfail]
    exact h
  · rw [hwrite]
    exact h.update rfl (fun k hk => Function.update_of_ne hk _ _)
      (fun k hk => Function.update_of_ne hk _ _) (Function.update_self _ _ _)
      (tells_write w.table r)
  · rw [hkeep]
    have htells : Tells text (loadPromptConfig text w.table.rows none) r.key r.value := by
      by_contra htells
      exact hc ⟨r, hi, loaded, hloaded, hsame, hrow, htells⟩
    exact h.update rfl (fun k hk => Function.update_of_ne hk _ _) (fun _ _ => rfl)
      (Function.update_self _ _ _) fun _ => (tells_congr rfl).mp htells

/-- A service that has loaded the configuration is told what was said. -/
theorem ToldAsSaid.create (h : ToldAsSaid text w) {loading : Loading}
    (hc : ¬ FallsBack text w (.create loading)) :
    ToldAsSaid text { w with services := w.createLlmClient text loading :: w.services } where
  service := by
    intro service hservice
    rcases List.mem_cons.mp hservice with rfl | hservice
    · cases loading with
      | loaded profile => exact h.next profile
      | failed => exact not_not.mp hc
    · exact h.service service hservice
  next := h.next

theorem ToldAsSaid.start (h : ToldAsSaid text w) (i : ℕ)
    (request : Except HTTPException PromptWrite) : ToldAsSaid text (w.start i request) := by
  cases request with
  | error e => exact h
  | ok r => exact ⟨h.service, h.next⟩

theorem ToldAsSaid.finish (h : ToldAsSaid text w) (i : ℕ) : ToldAsSaid text (w.finish i) :=
  ⟨h.service, h.next⟩

theorem ToldAsSaid.step (h : ToldAsSaid text w)
    (hc : ¬ Overlooked text w ev ∧ ¬ FallsBack text w ev) (hs : w.step text ev = some w') :
    ToldAsSaid text w' := by
  cases ev with
  | put i configKey body =>
    obtain ⟨-, hs⟩ := Option.ite_none_left_eq_some.mp hs
    obtain rfl := Option.some.inj hs
    exact h.start i _
  | reset i configKey =>
    obtain ⟨-, hs⟩ := Option.ite_none_left_eq_some.mp hs
    obtain rfl := Option.some.inj hs
    exact h.start i _
  | commit i =>
    obtain ⟨r, hi, rfl⟩ := Option.map_eq_some_iff.mp hs
    exact (h.commit hi hc.1).finish i
  | abort i =>
    obtain ⟨r, -, rfl⟩ := Option.map_eq_some_iff.mp hs
    exact h.finish i
  | create loading =>
    obtain rfl := Option.some.inj hs
    exact h.create hc.2

/-- After such a commit the row says what it said before. -/
theorem not_toldAsSaid_of_overlooked (hc : Overlooked text w ev) (hs : w.step text ev = some w') :
    ¬ ToldAsSaid text w' := by
  cases ev with
  | put | reset | abort | create => exact hc.elim
  | commit i =>
    obtain ⟨r, hi, loaded, hloaded, hsame, hrow, htells⟩ := hc
    obtain ⟨row, hrow⟩ := Option.isSome_iff_exists.mp hrow
    obtain ⟨r', hi', rfl⟩ := Option.map_eq_some_iff.mp hs
    obtain rfl : r = r' := Option.some.inj (hi.symm.trans hi')
    have hkeep : w.commit r =
        some { w with said := Function.update w.said r.key (some r.value) } := by
      unfold PromptWorld.commit
      rw [Option.mem_def.mp hloaded, hrow]
      simp [hsame]
    rw [hkeep]
    intro htold
    have hkey := htold.next none r.key
    simp only [Option.getD_some, PromptWorld.finish, Function.update_self] at hkey
    exact htells hkey

/-- A service that falls back is told the built-in parts. -/
theorem not_toldAsSaid_of_fallsBack (hc : FallsBack text w ev) (hs : w.step text ev = some w') :
    ¬ ToldAsSaid text w' := by
  cases ev with
  | put | reset | abort | commit => exact hc.elim
  | create loading =>
    cases loading with
    | loaded profile => exact hc.elim
    | failed =>
      obtain rfl := Option.some.inj hs
      intro htold
      exact hc (htold.service _ List.mem_cons_self)

end

/-! ## Runs -/

/-- Whatever requests for the configuration run at the same time, every LLM service is told of each
part what the last request that was committed before its creation said, item by item, in all states
exactly if no commit is overlooked and no service falls back to the built-in parts after something
else was said. -/
theorem toldAsSaid_iff (text : Json → String) (table : PromptTable) (events : List PromptEvent) :
    Run.AllStates (PromptWorld.step text) (ToldAsSaid text) (.init table) events ↔
      Run.AllSteps (PromptWorld.step text)
        (fun w ev => ¬ Overlooked text w ev ∧ ¬ FallsBack text w ev) (.init table) events := by
  refine Run.allStates_iff_allSteps (I := ToldAsSaid text) (fun _ h => h)
    (fun _ _ _ h hc hs => h.step hc hs) (fun w ev w' _ hc hs => ?_) (toldAsSaid_init table) events
  rcases not_and_or.mp hc with hc | hc
  · exact not_toldAsSaid_of_overlooked (not_not.mp hc) hs
  · exact not_toldAsSaid_of_fallsBack (not_not.mp hc) hs

/-- The table after its migration. -/
def seeded : PromptTable where
  rows := fun key => some (defaultValue key)
  valid := by
    intro key value h
    obtain rfl := Option.some.inj h
    exact validate_defaultValue key

def otherIdentity : PromptConfigUpdate where
  configValue := .obj [("name", .str "Acme"), ("tagline", .str "a maker of anvils")]
  container := trivial

/-- A reset of the identity, of which another request has just changed the row, changes nothing. -/
example : (Run.exec (PromptWorld.step fun _ => "") (.init seeded)
    [.reset 0 "company_identity", .put 1 "company_identity" otherIdentity, .commit 1,
     .commit 0]).any (fun w =>
      (w.said .companyIdentity).any (·.same (defaultValue .companyIdentity)) &&
      (w.table.rows .companyIdentity).any (·.same otherIdentity.configValue)) = true := by
  decide +kernel

end Prompts
end LeadPulse
