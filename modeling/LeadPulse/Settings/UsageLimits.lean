import LeadPulse.Icp.Profile
import LeadPulse.Lib.PyNum
import LeadPulse.Lib.Run
import Mathlib.Algebra.GroupWithZero.Nat
import Mathlib.Data.List.AList

/-!
# Usage limits

`PUT /settings/usage-limits` (`api/v1/usage_limits.py`) writes each limit twice: as a text to the
table `app_settings`, and as it is to the singleton `settings`. It is read from the table by the
API, from the singleton by the checks, and at the start of a process
`load_db_settings_into_config` (`core/app_settings_store.py`) copies the table to the singleton.

The schema lets a limit be null, which the update takes for a value: the text is `None`, and no
reader can read it. `readable_iff` says that this is all that can go wrong.
-/

namespace LeadPulse
namespace Settings

/-! ## The limits -/

inductive LimitField where
  | maxCompaniesPerDiscoveryRun
  | maxDiscoveryRunsPerDay
  | maxEnrichmentsPerDay
  | maxScrapesPerDay
  | maxMonitoringCompaniesPerRun
  | dailyApiCostLimit
deriving DecidableEq, Repr

namespace LimitField

/-- The keys of `_LIMIT_FIELDS`. -/
def all : List LimitField :=
  [maxCompaniesPerDiscoveryRun, maxDiscoveryRunsPerDay, maxEnrichmentsPerDay, maxScrapesPerDay,
    maxMonitoringCompaniesPerRun, dailyApiCostLimit]

theorem mem_all (f : LimitField) : f ∈ all := by cases f <;> decide

theorem nodup_all : all.Nodup := by decide

def dbKey : LimitField → String
  | maxCompaniesPerDiscoveryRun => "limits.max_companies_per_discovery_run"
  | maxDiscoveryRunsPerDay => "limits.max_discovery_runs_per_day"
  | maxEnrichmentsPerDay => "limits.max_enrichments_per_day"
  | maxScrapesPerDay => "limits.max_scrapes_per_day"
  | maxMonitoringCompaniesPerRun => "limits.max_monitoring_companies_per_run"
  | dailyApiCostLimit => "limits.daily_api_cost_limit"

theorem dbKey_injective {f g : LimitField} (h : f.dbKey = g.dbKey) : f = g := by
  cases f <;> cases g <;> first | rfl | simp [dbKey] at h

end LimitField

inductive LimitValue (F : Type) where
  | int (n : ℤ)
  | float (x : F)
deriving DecidableEq, Repr

/-- The defaults of the environment, where the cost is 25.0. -/
def defaultLimits {F : Type} (cost : F) : LimitField → LimitValue F
  | .maxCompaniesPerDiscoveryRun => .int 50
  | .maxDiscoveryRunsPerDay => .int 5
  | .maxEnrichmentsPerDay => .int 100
  | .maxScrapesPerDay => .int 50
  | .maxMonitoringCompaniesPerRun => .int 200
  | .dailyApiCostLimit => .float cost

section
variable {F : Type} (T : PyFloat F)

/-- `str(value)`, where null is `None`. -/
def strValue : Option (LimitValue F) → List Char
  | none => "None".toList
  | some (.int n) => PyNum.str n
  | some (.float x) => T.str x

namespace LimitField

/-- The cast of a limit, `none` if it raises. -/
def cast (raw : List Char) : LimitField → Option (LimitValue F)
  | dailyApiCostLimit => (T.float raw).map .float
  | _ => (PyNum.int raw).map .int

/-- The type of the limit. -/
def Typed : LimitField → LimitValue F → Prop
  | dailyApiCostLimit, .float _ => True
  | dailyApiCostLimit, .int _ => False
  | _, .float _ => False
  | _, .int _ => True

end LimitField

/-! ## Requests -/

/-- The body of an update. -/
structure UsageLimitsUpdate (F : Type) where
  maxCompaniesPerDiscoveryRun : FieldUpdate ℤ := .unset
  maxDiscoveryRunsPerDay : FieldUpdate ℤ := .unset
  maxEnrichmentsPerDay : FieldUpdate ℤ := .unset
  maxScrapesPerDay : FieldUpdate ℤ := .unset
  maxMonitoringCompaniesPerRun : FieldUpdate ℤ := .unset
  dailyApiCostLimit : FieldUpdate F := .unset
deriving DecidableEq, Repr

namespace UsageLimitsUpdate

def ofField {α : Type} (mk : α → LimitValue F) : FieldUpdate α → FieldUpdate (LimitValue F)
  | .unset => .unset
  | .set value => .set (value.map mk)

/-- `body.model_dump(exclude_unset=True)`. -/
def get (body : UsageLimitsUpdate F) : LimitField → FieldUpdate (LimitValue F)
  | .maxCompaniesPerDiscoveryRun => ofField .int body.maxCompaniesPerDiscoveryRun
  | .maxDiscoveryRunsPerDay => ofField .int body.maxDiscoveryRunsPerDay
  | .maxEnrichmentsPerDay => ofField .int body.maxEnrichmentsPerDay
  | .maxScrapesPerDay => ofField .int body.maxScrapesPerDay
  | .maxMonitoringCompaniesPerRun => ofField .int body.maxMonitoringCompaniesPerRun
  | .dailyApiCostLimit => ofField .float body.dailyApiCostLimit

/-- `Field(default=None, ge=1, le=max)`. -/
def inRange (max : ℤ) (field : FieldUpdate ℤ) : Bool := field.value.all fun n => 1 ≤ n ∧ n ≤ max

/-- The schema accepts the body. -/
def accepted [LE F] [DecidableLE F] [Zero F] (body : UsageLimitsUpdate F) : Bool :=
  inRange 1000 body.maxCompaniesPerDiscoveryRun && inRange 100 body.maxDiscoveryRunsPerDay &&
    inRange 10000 body.maxEnrichmentsPerDay && inRange 10000 body.maxScrapesPerDay &&
    inRange 10000 body.maxMonitoringCompaniesPerRun &&
    body.dailyApiCostLimit.value.all fun x => decide (0 ≤ x)

end UsageLimitsUpdate

/-! ## The table of settings -/

/-- The table `app_settings`, in which a value may be null. -/
abbrev AppSettings := AList fun _ : String => Option (List Char)

def getSetting (rows : AppSettings) (key : String) : Option (List Char) := (rows.lookup key).join

def setSetting (rows : AppSettings) (key : String) (value : Option (List Char)) : AppSettings :=
  rows.insert key value

theorem getSetting_setSetting_self {rows : AppSettings} {key : String}
    {value : Option (List Char)} : getSetting (setSetting rows key value) key = value := by
  unfold getSetting setSetting
  rw [AList.lookup_insert]
  rfl

theorem getSetting_setSetting_ne {rows : AppSettings} {key key' : String}
    {value : Option (List Char)} (h : key' ≠ key) :
    getSetting (setSetting rows key value) key' = getSetting rows key' := by
  unfold getSetting setSetting
  rw [AList.lookup_insert_ne h]

/-! ## Reading and writing -/

/-- The attributes of the singleton, which may have been set to null. -/
abbrev LimitSettings (F : Type) := LimitField → Option (LimitValue F)

/-- A limit in the answer to a request, `none` if its text cannot be cast. -/
def readLimit (rows : AppSettings) (settings : LimitSettings F) (f : LimitField) :
    Option (Option (LimitValue F)) :=
  match getSetting rows f.dbKey with
  | none => some (settings f)
  | some raw => (f.cast T raw).map some

/-- All limits, `none` if an exception is raised. -/
def readLimits (rows : AppSettings) (settings : LimitSettings F) :
    Option (List (LimitField × Option (LimitValue F))) :=
  LimitField.all.mapM fun f => (readLimit T rows settings f).map (f, ·)

/-- A text that cannot be cast is left alone, with a warning. -/
def loadDbSettingsIntoConfig (rows : AppSettings) (settings : LimitSettings F) :
    LimitSettings F :=
  fun f => match getSetting rows f.dbKey with
    | none => settings f
    | some raw => match f.cast T raw with
      | none => settings f
      | some v => some v

/-- The rows after an update. -/
def updateRows (body : UsageLimitsUpdate F) (rows : AppSettings) : List LimitField → AppSettings
  | [] => rows
  | f :: fs => match body.get f with
    | .unset => updateRows body rows fs
    -- a null is set, too
    | .set value => updateRows body (setSetting rows f.dbKey (some (strValue T value))) fs

end

/-! ## Runs -/

/-- The table and the singleton, and the limits that have been asked for. -/
structure LimitsState (F : Type) where
  rows : AppSettings
  settings : LimitSettings F
  limits : LimitField → LimitValue F

inductive LimitsAction (F : Type) where
  | put (body : UsageLimitsUpdate F)
  /-- The process is started again. -/
  | restart

/-- The update sets a limit to null. -/
def SetsNull {F : Type} [LE F] [DecidableLE F] [Zero F] : LimitsAction F → Prop
  | .put body => body.accepted = true ∧ ∃ f ∈ LimitField.all, body.get f = .set none
  | .restart => False

instance {F : Type} [LE F] [DecidableLE F] [Zero F] [DecidableEq F] :
    DecidablePred (SetsNull (F := F))
  | .put _ => inferInstanceAs (Decidable (_ ∧ _))
  | .restart => inferInstanceAs (Decidable False)

namespace LimitsState

section
variable {F : Type} (T : PyFloat F) (env : LimitField → LimitValue F)

/-- A process starts with the limits of its environment, and loads the table. -/
def start (rows : AppSettings) : LimitsState F where
  rows := rows
  settings := loadDbSettingsIntoConfig T rows fun f => some (env f)
  limits := env

def updateUsageLimits (body : UsageLimitsUpdate F) (s : LimitsState F) : LimitsState F where
  rows := updateRows T body s.rows LimitField.all
  settings := fun f => (body.get f).apply (s.settings f)
  limits := fun f => (body.get f).value.getD (s.limits f)

def step [LE F] [DecidableLE F] [Zero F] (s : LimitsState F) :
    LimitsAction F → Option (LimitsState F)
  | .put body => some (if body.accepted then s.updateUsageLimits T body else s)
  | .restart => some { s with settings := loadDbSettingsIntoConfig T s.rows fun f => some (env f) }

/-- Every reader finds the limits that have been asked for. -/
structure Readable (s : LimitsState F) : Prop where
  read : readLimits T s.rows s.settings =
    some (LimitField.all.map fun f => (f, some (s.limits f)))
  settings : ∀ f, s.settings f = some (s.limits f)
  reload : ∀ f, loadDbSettingsIntoConfig T s.rows (fun f => some (env f)) f = some (s.limits f)

/-- The text of a limit is read as the limit, and without a text it is that of the environment. -/
structure Inv (s : LimitsState F) : Prop where
  settings : ∀ f, s.settings f = some (s.limits f)
  absent : ∀ f, getSetting s.rows f.dbKey = none → s.limits f = env f
  stored : ∀ f, ∀ raw ∈ getSetting s.rows f.dbKey, f.cast T raw = some (s.limits f)

end

/-! ## Reading -/

variable {F : Type} {T : PyFloat F} {env : LimitField → LimitValue F} {s s' : LimitsState F}
  {f : LimitField} {body : UsageLimitsUpdate F}

theorem mapM_eq_none {α β : Type} {g : α → Option β} {as : List α} {a : α} (ha : a ∈ as)
    (hnone : g a = none) : as.mapM g = none := by
  induction as with
  | nil => cases ha
  | cons b bs ih =>
    rw [List.mapM_cons]
    rcases List.mem_cons.mp ha with rfl | hmem
    · rw [hnone]
      rfl
    · rw [ih hmem]
      cases g b with
      | none => rfl
      | some v => rfl

theorem cast_strValue {v : LimitValue F} (h : f.Typed v) :
    f.cast T (strValue T (some v)) = some v := by
  cases v with
  | int n =>
    have hread := PyNum.int_str n
    cases f <;> first | exact h.elim | simp [LimitField.cast, strValue, hread]
  | float x =>
    have hread := T.float_str x
    cases f <;> first | exact h.elim | simp [LimitField.cast, strValue, hread]

/-- No cast reads the text of a null. -/
theorem cast_strValue_none : f.cast T (strValue T none) = none := by
  have hint : PyNum.int "None".toList = none := by decide
  have hfloat := T.float_none
  cases f <;> simp only [LimitField.cast, strValue, hint, hfloat, Option.map_none]

/-- The schema takes for each limit values of its type only. -/
theorem typed_of_get {v : LimitValue F} (h : body.get f = .set (some v)) : f.Typed v := by
  have hint : ∀ field : FieldUpdate ℤ, UsageLimitsUpdate.ofField .int field = .set (some v) →
      ∃ n, v = .int n := by
    intro field hfield
    cases field with
    | unset => cases hfield
    | set value =>
      cases value with
      | none => cases hfield
      | some n => exact ⟨n, by simpa [UsageLimitsUpdate.ofField] using hfield.symm⟩
  cases f with
  | dailyApiCostLimit =>
    simp only [UsageLimitsUpdate.get] at h
    cases hfield : body.dailyApiCostLimit with
    | unset => simp [hfield, UsageLimitsUpdate.ofField] at h
    | set value =>
      cases value with
      | none => simp [hfield, UsageLimitsUpdate.ofField] at h
      | some x =>
        obtain rfl : .float x = v := by simpa [hfield, UsageLimitsUpdate.ofField] using h
        trivial
  | _ =>
    obtain ⟨n, rfl⟩ := hint _ h
    trivial

theorem getSetting_updateRows_of_notMem {rows : AppSettings} {fs : List LimitField}
    (hf : f ∉ fs) :
    getSetting (updateRows T body rows fs) f.dbKey = getSetting rows f.dbKey := by
  induction fs generalizing rows with
  | nil => rfl
  | cons g fs ih =>
    rw [List.mem_cons, not_or] at hf
    unfold updateRows
    cases body.get g with
    | unset => exact ih hf.2
    | set value =>
      show getSetting (updateRows T body (setSetting rows _ _) fs) _ = _
      rw [ih hf.2, getSetting_setSetting_ne]
      exact fun heq => hf.1 (LimitField.dbKey_injective heq)

/-- The text of a limit after an update. -/
theorem getSetting_updateRows {rows : AppSettings} {fs : List LimitField} (hnodup : fs.Nodup)
    (hf : f ∈ fs) :
    getSetting (updateRows T body rows fs) f.dbKey = match body.get f with
      | .unset => getSetting rows f.dbKey
      | .set value => some (strValue T value) := by
  induction fs generalizing rows with
  | nil => cases hf
  | cons g fs ih =>
    obtain ⟨hg, hnodup⟩ := List.nodup_cons.mp hnodup
    unfold updateRows
    by_cases hfg : f = g
    · subst hfg
      cases body.get f with
      | unset => exact getSetting_updateRows_of_notMem hg
      | set value =>
        show getSetting (updateRows T body (setSetting rows _ _) fs) _ = _
        rw [getSetting_updateRows_of_notMem hg, getSetting_setSetting_self]
    · have hmem : f ∈ fs := (List.mem_cons.mp hf).resolve_left hfg
      cases body.get g with
      | unset => exact ih hnodup hmem
      | set value =>
        show getSetting (updateRows T body (setSetting rows _ _) fs) _ = _
        rw [ih hnodup hmem, getSetting_setSetting_ne]
        exact fun heq => hfg (LimitField.dbKey_injective heq)

/-- The text of a limit after a request. -/
theorem getSetting_updateUsageLimits :
    getSetting (s.updateUsageLimits T body).rows f.dbKey = match body.get f with
      | .unset => getSetting s.rows f.dbKey
      | .set value => some (strValue T value) :=
  getSetting_updateRows LimitField.nodup_all f.mem_all

theorem Inv.readLimit (h : Inv T env s) (f : LimitField) :
    readLimit T s.rows s.settings f = some (some (s.limits f)) := by
  unfold Settings.readLimit
  cases hraw : getSetting s.rows f.dbKey with
  | none => simp only [h.settings f]
  | some raw => simp only [h.stored f raw hraw, Option.map_some]

theorem Inv.load (h : Inv T env s) (f : LimitField) :
    loadDbSettingsIntoConfig T s.rows (fun f => some (env f)) f = some (s.limits f) := by
  unfold loadDbSettingsIntoConfig
  cases hraw : getSetting s.rows f.dbKey with
  | none => rw [h.absent f hraw]
  | some raw => simp only [h.stored f raw hraw]

theorem Inv.readable (h : Inv T env s) : Readable T env s where
  read := by
    unfold readLimits
    simp only [h.readLimit, Option.map_some]
    exact List.mapM_pure
  settings := h.settings
  reload := h.load

/-! ## One step -/

theorem inv_start {rows : AppSettings}
    (hseed : ∀ f, ∀ raw ∈ getSetting rows f.dbKey, f.cast T raw = some (env f)) :
    Inv T env (start T env rows) where
  settings := fun f => by
    show loadDbSettingsIntoConfig T rows (fun f => some (env f)) f = some (env f)
    unfold loadDbSettingsIntoConfig
    cases hraw : getSetting rows f.dbKey with
    | none => rfl
    | some raw => simp only [hseed f raw hraw]
  absent := fun _ _ => rfl
  stored := hseed

/-- An update in which no limit is null. -/
theorem Inv.updateUsageLimits (h : Inv T env s) (hno : ∀ f, body.get f ≠ .set none) :
    Inv T env (s.updateUsageLimits T body) := by
  constructor
  · -- the singleton takes the value itself
    intro f
    show (body.get f).apply (s.settings f) = some ((body.get f).value.getD (s.limits f))
    cases hget : body.get f with
    | unset => exact h.settings f
    | set value =>
      cases value with
      | none => exact absurd hget (hno f)
      | some v => rfl
  · -- a limit without a text has never been set
    intro f hnone
    rw [getSetting_updateUsageLimits] at hnone
    show (body.get f).value.getD (s.limits f) = env f
    cases hget : body.get f with
    | unset =>
      rw [hget] at hnone
      exact h.absent f hnone
    | set value =>
      rw [hget] at hnone
      cases hnone
  · -- the table takes the text, which the cast reads back
    intro f raw hraw
    rw [getSetting_updateUsageLimits] at hraw
    show f.cast T raw = some ((body.get f).value.getD (s.limits f))
    cases hget : body.get f with
    | unset =>
      rw [hget] at hraw
      exact h.stored f raw hraw
    | set value =>
      cases value with
      | none => exact absurd hget (hno f)
      | some v =>
        rw [hget] at hraw
        obtain rfl := Option.some.inj hraw
        exact cast_strValue (typed_of_get hget)

variable [LE F] [DecidableLE F] [Zero F] {a : LimitsAction F}

theorem Inv.step (h : Inv T env s) (hno : ¬ SetsNull a) (hs : s.step T env a = some s') :
    Inv T env s' := by
  cases a with
  | put body =>
    obtain rfl := Option.some.inj hs
    split
    · rename_i haccepted
      exact h.updateUsageLimits fun f hnull => hno ⟨haccepted, f, f.mem_all, hnull⟩
    · exact h
  | restart =>
    obtain rfl := Option.some.inj hs
    exact ⟨h.load, h.absent, h.stored⟩

theorem not_readable_of_setsNull (hnull : SetsNull a) (hs : s.step T env a = some s') :
    ¬ Readable T env s' := by
  cases a with
  | put body =>
    obtain ⟨haccepted, f, hf, hget⟩ := hnull
    obtain rfl := Option.some.inj hs
    rw [if_pos haccepted]
    intro hread
    -- one limit that cannot be cast is enough to stop the loop over all
    have hfails : Settings.readLimit T (s.updateUsageLimits T body).rows
        (s.updateUsageLimits T body).settings f = none := by
      unfold Settings.readLimit
      simp only [getSetting_updateUsageLimits, hget, cast_strValue_none, Option.map_none]
    have hnone : readLimits T (s.updateUsageLimits T body).rows
        (s.updateUsageLimits T body).settings = none :=
      mapM_eq_none hf (by rw [hfails]; rfl)
    rw [hread.read] at hnone
    cases hnone
  | restart => exact hnull.elim

/-! ## Whole runs -/

/-- Of tables that agree with the environment, as they are seeded: the limits stay readable in a
run of updates and restarts exactly if no update sets one to null. -/
theorem readable_iff (T : PyFloat F) (env : LimitField → LimitValue F) (rows : AppSettings)
    (hseed : ∀ f, ∀ raw ∈ getSetting rows f.dbKey, f.cast T raw = some (env f))
    (as : List (LimitsAction F)) :
    Run.AllStates (step T env) (Readable T env) (start T env rows) as ↔
      Run.AllSteps (step T env) (fun _ a => ¬ SetsNull a) (start T env rows) as :=
  Run.allStates_iff_allSteps (fun _ (h : Inv T env _) => h.readable)
    (fun _ _ _ h hno hs => h.step hno hs)
    (fun _ _ _ _ hnull hs => not_readable_of_setsNull (not_not.mp hnull) hs) (inv_start hseed) as

/-! ### An example -/

/-- Whole floats, as they are written as long as they are not too large. -/
def wholeFloats : PyFloat ℕ where
  str n := Nat.toDigits 10 n ++ ['.', '0']
  float s := match s.reverse with
    | '0' :: '.' :: s => PyNum.digits s.reverse
    | _ => none
  float_str n := by simp [PyNum.digits_toDigits]
  float_none := by decide

/-- What `seed_defaults` inserts. -/
def seededRows : AppSettings :=
  [("limits.max_companies_per_discovery_run", "50"), ("limits.max_discovery_runs_per_day", "5"),
    ("limits.max_enrichments_per_day", "100"), ("limits.max_scrapes_per_day", "50"),
    ("limits.max_monitoring_companies_per_run", "200"),
    ("limits.daily_api_cost_limit", "25.0")].foldl
    (fun rows row => setSetting rows row.1 (some row.2.toList)) ∅

theorem readable_example : Run.AllStates (step wholeFloats (defaultLimits 25))
    (Readable wholeFloats (defaultLimits 25)) (start wholeFloats (defaultLimits 25) seededRows)
    [.put { maxScrapesPerDay := .set (some 20), dailyApiCostLimit := .set (some 0) }, .restart,
      .put { maxScrapesPerDay := .set (some 30) }] :=
  (readable_iff wholeFloats (defaultLimits 25) seededRows
    (fun f => by cases f <;> decide +kernel) _).mpr
    (Run.AllSteps.of_check (fun _ _ h => of_decide_eq_true h) (by decide +kernel))

/-- The limit on scrapes is set to null. -/
theorem null_unreadable : ¬ Run.AllStates (step wholeFloats (defaultLimits 25))
    (Readable wholeFloats (defaultLimits 25)) (start wholeFloats (defaultLimits 25) seededRows)
    [.put { maxScrapesPerDay := .set none }] :=
  Run.not_allStates (q := fun s => (readLimits wholeFloats s.rows s.settings).isNone)
    (fun s hs => by rw [hs.read]; rfl) (by decide +kernel)

end LimitsState
end Settings
end LeadPulse
