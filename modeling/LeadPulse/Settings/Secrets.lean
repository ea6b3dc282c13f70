import LeadPulse.Settings.UsageLimits

/-!
# API keys

The keys of the external services are entered through `PUT /settings/api-keys`
(`api/v1/api_keys.py`), stored encrypted in the table `app_settings`
(`core/app_settings_store.py`), and copied to the singleton `settings` of the process that serves
the request. There are several such processes, and the requests they serve at the same time take
turns at each access to the table. A value is stored in two of them: `set_setting` selects the row,
and then commits. The commit writes nothing if the text is the one that was selected. The workers
read the table, and their environment where it has no value.

The encryption is Fernet's, of which `Fernet` has what the package promises.
-/

namespace LeadPulse
namespace Settings

/-! ## Encryption -/

/-- A token is made with a nonce: the time and the initial vector. A key that is not well-formed
is no key. -/
structure Fernet (Key Nonce : Type) where
  encrypt : Key → Nonce → List Char → List Char
  decrypt : Key → List Char → Option (List Char)
  decrypt_encrypt : ∀ k r m, decrypt k (encrypt k r m) = some m
  decrypt_other : ∀ k k' r m, k ≠ k' → decrypt k' (encrypt k r m) = none
  marked : ∀ k r m, "gAAAAA".toList.isPrefixOf (encrypt k r m) = true
  longer : ∀ k r m, m.length < (encrypt k r m).length

section
variable {Key Nonce : Type} (C : Fernet Key Nonce)

/-- `encrypt`, `none` for the `EncryptionError`. -/
def encrypt (key : Option Key) (nonce : Nonce) (plaintext : List Char) : Option (List Char) :=
  key.map fun k => C.encrypt k nonce plaintext

def decrypt (key : Option Key) (ciphertext : List Char) : Option (List Char) :=
  key.bind fun k => C.decrypt k ciphertext

/-- `_try_encrypt` -/
def tryEncrypt (key : Option Key) (nonce : Nonce) (plaintext : List Char) : List Char :=
  (encrypt C key nonce plaintext).getD plaintext

/-- `_try_decrypt` -/
def tryDecrypt (key : Option Key) (value : List Char) : List Char :=
  if !"gAAAAA".toList.isPrefixOf value then value else (decrypt C key value).getD value

def getEncryptedSetting (key : Option Key) (rows : AppSettings) (dbKey : String) :
    Option (List Char) :=
  (getSetting rows dbKey).map (tryDecrypt C key)

end

/-! ## The fields -/

inductive KeyField where
  | llmProvider
  | anthropicApiKey
  | openrouterApiKey
  | openrouterModel
  | geminiApiKey
  | firecrawlApiKey
  | hunterIoApiKey
  | apolloApiKey
  | scrapinApiKey
  | bedrijfsdataApiKey
  | apifyApiToken
deriving DecidableEq, Repr

namespace KeyField

def dbKey : KeyField → String
  | llmProvider => "apikeys.llm_provider"
  | anthropicApiKey => "apikeys.anthropic_api_key"
  | openrouterApiKey => "apikeys.openrouter_api_key"
  | openrouterModel => "apikeys.openrouter_model"
  | geminiApiKey => "apikeys.gemini_api_key"
  | firecrawlApiKey => "apikeys.firecrawl_api_key"
  | hunterIoApiKey => "apikeys.hunter_io_api_key"
  | apolloApiKey => "apikeys.apollo_api_key"
  | scrapinApiKey => "apikeys.scrapin_api_key"
  | bedrijfsdataApiKey => "apikeys.bedrijfsdata_api_key"
  | apifyApiToken => "apikeys.apify_api_token"

theorem dbKey_injective {f g : KeyField} (h : f.dbKey = g.dbKey) : f = g := by
  cases f <;> cases g <;> first | rfl | simp [dbKey] at h

/-- The provider and the model are stored as they are. -/
def isEncrypted : KeyField → Bool
  | llmProvider | openrouterModel => false
  | _ => true

/-- The provider, and then the fields of `_FIELD_MAP`. -/
def updateOrder : List KeyField :=
  [llmProvider, anthropicApiKey, openrouterApiKey, geminiApiKey, firecrawlApiKey, hunterIoApiKey,
    apolloApiKey, scrapinApiKey, bedrijfsdataApiKey, apifyApiToken, openrouterModel]

/-- The order in which `get_api_keys_settings` reads. -/
def readOrder : List KeyField :=
  [llmProvider, openrouterModel, anthropicApiKey, openrouterApiKey, geminiApiKey,
    firecrawlApiKey, hunterIoApiKey, apolloApiKey, scrapinApiKey, bedrijfsdataApiKey,
    apifyApiToken]

end KeyField

/-- `_VALID_LLM_PROVIDERS` -/
def validLlmProviders : List (List Char) :=
  ["anthropic".toList, "openrouter".toList, "gemini".toList, "google_vertex".toList]

/-- A field of the answer: a plain value, or the status of a key. -/
inductive KeyView where
  | plain (value : List Char)
  | status (keySet : Bool) (preview : Option (List Char))
deriving DecidableEq, Repr

/-- `_mask` -/
def mask (value : List Char) : Option (List Char) :=
  if value = [] then none else some (value.take (min 8 value.length) ++ "****".toList)

/-- Python's `value or fallback`. -/
def orElse (value : Option (List Char)) (fallback : List Char) : List Char :=
  if value.getD [] = [] then fallback else value.getD []

/-! ## Requests -/

/-- The body of an update; null and the empty text are the same to it. -/
abbrev APIKeysSettingsUpdate := KeyField → FieldUpdate (List Char)

/-- A value that an admin has entered, with the key and the nonce of its token. -/
structure Asked (Key Nonce : Type) where
  value : List Char
  key : Option Key
  nonce : Nonce
  ne_nil : value ≠ []

/-- What a request has at hand between the `SELECT` and the commit of `set_setting`: what it
stores, null for an empty value, and the row that it has selected, if there was one. -/
structure Draft (Key Nonce : Type) where
  asked : Option (Asked Key Nonce)
  selected : Option (Option (List Char))

/-- What a request does between two accesses to the table. -/
inductive Op (Key Nonce : Type) where
  | select (f : KeyField) (value : List Char)
  | commit (f : KeyField) (draft : Draft Key Nonce)
  | assign (f : KeyField) (value : List Char)
  | read (f : KeyField)
  | respond

structure Request (Key Nonce : Type) where
  process : ℕ
  ops : List (Op Key Nonce)
  view : List (KeyField × KeyView) := []

inductive Response where
  | ok (view : List (KeyField × KeyView))
  /-- 422, with the provider in its text -/
  | unknownProvider (prov : List Char)
  /-- 500 -/
  | failed
deriving DecidableEq

section
variable {Key Nonce : Type}

def getOps : List (Op Key Nonce) := KeyField.readOrder.map .read ++ [.respond]

/-- A field that is set is written to the table, and then to the singleton. -/
def fieldOps (body : APIKeysSettingsUpdate) (f : KeyField) : List (Op Key Nonce) :=
  match body f with
  | .unset => []
  | .set value => [.select f (value.getD []), .assign f (value.getD [])]

def putOps (body : APIKeysSettingsUpdate) : List (Op Key Nonce) :=
  KeyField.updateOrder.flatMap (fieldOps body) ++ getOps

end

/-- The provider of an update that is turned down. -/
def unknownProvider (body : APIKeysSettingsUpdate) : Option (List Char) :=
  match body .llmProvider with
  | .unset => none
  | .set value =>
    let prov := value.getD []
    if prov ≠ [] ∧ !validLlmProviders.contains prov then some prov else none

/-! ## The system -/

structure KeyWorld (Key Nonce : Type) where
  rows : AppSettings
  fernetKey : Option Key
  /-- the environment of all processes -/
  env : KeyField → List Char
  /-- the singleton of each process of the API -/
  settings : ℕ → KeyField → List Char
  requests : List (Request Key Nonce) := []
  responses : List Response := []
  /-- what was entered last, and not cleared -/
  asked : KeyField → Option (Asked Key Nonce) := fun _ => none

inductive KeyAction (Key Nonce : Type) where
  | get (process : ℕ)
  | put (process : ℕ) (body : APIKeysSettingsUpdate)
  /-- request `i` goes on -/
  | advance (i : ℕ) (nonce : Nonce)
  | restart (process : ℕ)
  /-- all processes start again, with the key and the environment of the deployment -/
  | redeploy (fernetKey : Option Key) (env : KeyField → List Char)

namespace KeyWorld

variable {Key Nonce : Type} (C : Fernet Key Nonce)

/-- A field as a process of the API sees it. -/
def keyView (s : KeyWorld Key Nonce) (process : ℕ) (f : KeyField) : KeyView :=
  if f.isEncrypted then
    let value := orElse (getEncryptedSetting C s.fernetKey s.rows f.dbKey) (s.settings process f)
    .status (value ≠ []) (mask value)
  else .plain (orElse (getSetting s.rows f.dbKey) (s.settings process f))

/-- `get_effective_secret`, and `get_effective_setting` of the fields that are not encrypted, in a
worker. -/
def effective (s : KeyWorld Key Nonce) (f : KeyField) : List Char :=
  if f.isEncrypted then orElse (getEncryptedSetting C s.fernetKey s.rows f.dbKey) (s.env f)
  else orElse (getSetting s.rows f.dbKey) (s.env f)

/-- The text that is stored for a value. -/
def stored (f : KeyField) (a : Asked Key Nonce) : List Char :=
  if f.isEncrypted then tryEncrypt C a.key a.nonce a.value else a.value

/-- The text that a request stores, null for an empty value. -/
def text (f : KeyField) (d : Draft Key Nonce) : Option (List Char) := d.asked.map (stored C f)

/-- `set_encrypted_setting`, or `set_setting`, up to its `SELECT`. -/
def draft (s : KeyWorld Key Nonce) (nonce : Nonce) (f : KeyField) (value : List Char) :
    Draft Key Nonce where
  asked := if h : value = [] then none else some ⟨value, s.fernetKey, nonce, h⟩
  selected := s.rows.lookup f.dbKey

/-- The commit of `set_setting`, `none` if it fails. A row that is there is updated, unless it was
selected with the text that it is to get. -/
def commit (s : KeyWorld Key Nonce) (f : KeyField) (d : Draft Key Nonce) :
    Option (KeyWorld Key Nonce) :=
  let rows := setSetting s.rows f.dbKey (text C f d)
  let asked := Function.update s.asked f d.asked
  match d.selected, s.rows.lookup f.dbKey with
  | none, none => some { s with rows := rows, asked := asked }
  -- the key is unique
  | none, some _ => none
  | some old, some _ =>
    some { s with rows := if text C f d = old then s.rows else rows, asked := asked }
  | some _, none => none

def assign (s : KeyWorld Key Nonce) (process : ℕ) (f : KeyField) (value : List Char) :
    KeyWorld Key Nonce :=
  { s with
    settings := Function.update s.settings process
      (Function.update (s.settings process) f value) }

/-- The next operation of request `i`. -/
def runOp (s : KeyWorld Key Nonce) (nonce : Nonce) (i : ℕ) (r : Request Key Nonce)
    (op : Op Key Nonce) (rest : List (Op Key Nonce)) : KeyWorld Key Nonce :=
  match op with
  | .select f value =>
    { s with
      requests := s.requests.set i { r with ops := .commit f (s.draft nonce f value) :: rest } }
  | .commit f d =>
    match s.commit C f d with
    | some s' => { s' with requests := s.requests.set i { r with ops := rest } }
    | none =>
      { s with
        requests := s.requests.set i { r with ops := [] }
        responses := s.responses ++ [.failed] }
  | .assign f value =>
    { s.assign r.process f value with requests := s.requests.set i { r with ops := rest } }
  | .read f =>
    { s with
      requests := s.requests.set i
        { r with ops := rest, view := r.view ++ [(f, s.keyView C r.process f)] } }
  | .respond =>
    { s with
      requests := s.requests.set i { r with ops := rest }
      responses := s.responses ++ [.ok r.view] }

def step (s : KeyWorld Key Nonce) : KeyAction Key Nonce → Option (KeyWorld Key Nonce)
  | .get process =>
    some { s with requests := s.requests ++ [{ process := process, ops := getOps }] }
  | .put process body =>
    match unknownProvider body with
    | some prov => some { s with responses := s.responses ++ [.unknownProvider prov] }
    | none => some { s with requests := s.requests ++ [{ process := process, ops := putOps body }] }
  | .advance i nonce =>
    match s.requests[i]? with
    | none => none
    | some r =>
      match r.ops with
      | [] => none
      | op :: rest => some (s.runOp C nonce i r op rest)
  | .restart process =>
    some { s with
      settings := Function.update s.settings process s.env
      requests := s.requests.map fun r => if r.process = process then { r with ops := [] } else r }
  | .redeploy fernetKey env =>
    some { s with
      fernetKey := fernetKey, env := env, settings := fun _ => env
      requests := s.requests.map fun r => { r with ops := [] } }

/-- A commit that writes nothing, although another request has changed the row since it was
selected. -/
def overlooksOp (s : KeyWorld Key Nonce) : Op Key Nonce → Bool
  | .commit f d => d.selected = some (text C f d) &&
      (s.rows.lookup f.dbKey).any fun row => row ≠ text C f d
  | _ => false

def overlooks (s : KeyWorld Key Nonce) : KeyAction Key Nonce → Bool
  | .advance i _ => (s.requests[i]?.bind fun r => r.ops.head?).any (s.overlooksOp C)
  | _ => false

end KeyWorld

end Settings
end LeadPulse
