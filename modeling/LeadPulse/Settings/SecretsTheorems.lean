import LeadPulse.Lib.Pool
import LeadPulse.Settings.Secrets

/-!
# What the admins enter, what the workers get, and what the API shows

`serves_iff`: whatever requests run at the same time, the table holds for each field what was
entered last, exactly as long as no commit overlooks a change of its row. The workers get it then,
and their environment if it was cleared; but after a change of the encryption key they get the
token itself. `responses_eq_of_sameRun`: in such runs what the API answers depends on the first
eight characters of a key, and on nothing else of it.
-/

namespace LeadPulse
namespace Settings

variable {Key Nonce : Type} {C : Fernet Key Nonce} {f g : KeyField} {i process : ℕ}
  {value value' : List Char} {nonce : Nonce} {d : Draft Key Nonce}

/-! ## Encryption -/

theorem tryDecrypt_none (value : List Char) : tryDecrypt C none value = value := by
  unfold tryDecrypt
  split <;> rfl

/-- What is a token is read as a token. -/
theorem tryDecrypt_of_marked {key : Option Key}
    (h : "gAAAAA".toList.isPrefixOf value = true) :
    tryDecrypt C key value = (decrypt C key value).getD value := by
  unfold tryDecrypt
  rw [h]
  rfl

theorem tryDecrypt_tryEncrypt (key : Option Key) (nonce : Nonce) (value : List Char) :
    tryDecrypt C key (tryEncrypt C key nonce value) = value := by
  cases key with
  | none => exact tryDecrypt_none value
  | some k =>
    show tryDecrypt C (some k) (C.encrypt k nonce value) = value
    rw [tryDecrypt_of_marked (C.marked k nonce value)]
    show (C.decrypt k (C.encrypt k nonce value)).getD _ = value
    rw [C.decrypt_encrypt]
    rfl

/-- With another key, or without one, the token itself is read. -/
theorem tryDecrypt_encrypt_other {k : Key} {key : Option Key} (h : key ≠ some k) (nonce : Nonce)
    (value : List Char) :
    tryDecrypt C key (C.encrypt k nonce value) = C.encrypt k nonce value := by
  rw [tryDecrypt_of_marked (C.marked k nonce value)]
  cases key with
  | none => rfl
  | some k' =>
    have hne : k ≠ k' := fun he => h (congrArg some he.symm)
    show (C.decrypt k' (C.encrypt k nonce value)).getD _ = _
    rw [C.decrypt_other k k' nonce value hne]
    rfl

theorem encrypt_ne (k : Key) (nonce : Nonce) (value : List Char) :
    C.encrypt k nonce value ≠ value := by
  intro h
  have hlt := C.longer k nonce value
  rw [h] at hlt
  exact lt_irrefl _ hlt

theorem encrypt_ne_nil (k : Key) (nonce : Nonce) (value : List Char) :
    C.encrypt k nonce value ≠ [] :=
  List.ne_nil_of_length_pos ((Nat.zero_le _).trans_lt (C.longer k nonce value))

theorem orElse_some {fallback : List Char} (h : value ≠ []) :
    orElse (some value) fallback = value := by
  simp [orElse, h]

theorem orElse_none {fallback : List Char} : orElse none fallback = fallback := by
  simp [orElse]

/-! ## What the workers get -/

namespace KeyWorld

variable {s s' t : KeyWorld Key Nonce} {a : KeyAction Key Nonce} {as : List (KeyAction Key Nonce)}

/-- The table has what was entered last. -/
def Holds (C : Fernet Key Nonce) (s : KeyWorld Key Nonce) : Prop :=
  ∀ f, getSetting s.rows f.dbKey = (s.asked f).map (stored C f)

/-- Only commits touch the table. -/
theorem Holds.of_eq (h : Holds C s) (hrows : s'.rows = s.rows) (hasked : s'.asked = s.asked) :
    Holds C s' := by
  unfold Holds
  rw [hrows, hasked]
  exact h

theorem getSetting_of_lookup {rows : AppSettings} {dbKey : String} {row : Option (List Char)}
    (h : rows.lookup dbKey = some row) : getSetting rows dbKey = row := by
  unfold getSetting
  rw [h]
  rfl

/-- A commit fails, or it writes its text, or it has selected this text. -/
theorem commit_cases (C : Fernet Key Nonce) (s : KeyWorld Key Nonce) (f : KeyField)
    (d : Draft Key Nonce) :
    s.commit C f d = none ∨
    s.commit C f d = some { s with
      rows := setSetting s.rows f.dbKey (text C f d)
      asked := Function.update s.asked f d.asked } ∨
    ∃ row, d.selected = some (text C f d) ∧ s.rows.lookup f.dbKey = some row ∧
      s.commit C f d = some { s with asked := Function.update s.asked f d.asked } := by
  unfold KeyWorld.commit
  cases hselected : d.selected with
  | none =>
    cases hrow : s.rows.lookup f.dbKey with
    | none => exact .inr (.inl rfl)
    | some row => exact .inl rfl
  | some old =>
    cases hrow : s.rows.lookup f.dbKey with
    | none => exact .inl rfl
    | some row =>
      by_cases hsame : text C f d = old
      · exact .inr (.inr ⟨row, by rw [hsame], rfl, by simp [hsame]⟩)
      · exact .inr (.inl (by simp [hsame]))

/-- The row of the field that is committed, and the others. -/
theorem Holds.update (h : Holds C s) (hrow : getSetting s'.rows f.dbKey = text C f d)
    (hothers : ∀ g ≠ f, getSetting s'.rows g.dbKey = getSetting s.rows g.dbKey)
    (hasked : s'.asked = Function.update s.asked f d.asked) : Holds C s' := by
  intro g
  rw [hasked]
  by_cases hg : g = f
  · subst hg
    rw [Function.update_self]
    exact hrow
  · rw [Function.update_of_ne hg, hothers g hg]
    exact h g

theorem Holds.commit (h : Holds C s)
    (hrow : d.selected = some (text C f d) → ∀ row ∈ s.rows.lookup f.dbKey, row = text C f d)
    (hs : s.commit C f d = some s') : Holds C s' := by
  rcases s.commit_cases C f d with hfail | hwrite | ⟨row, hselected, hlookup, hkeep⟩
  · rw [hfail] at hs
    cases hs
  · obtain rfl := Option.some.inj (hwrite.symm.trans hs)
    refine h.update getSetting_setSetting_self (fun g hg => getSetting_setSetting_ne ?_) rfl
    exact fun he => hg (KeyField.dbKey_injective he)
  · obtain rfl := Option.some.inj (hkeep.symm.trans hs)
    refine h.update ?_ (fun g hg => rfl) rfl
    rw [getSetting_of_lookup hlookup, hrow hselected row hlookup]

/-- The operation that request `i` is at. -/
theorem overlooks_advance {r : Request Key Nonce} {op : Op Key Nonce}
    {rest : List (Op Key Nonce)} (hi : s.requests[i]? = some r) (hops : r.ops = op :: rest) :
    s.overlooks C (.advance i nonce) = s.overlooksOp C op := by
  unfold overlooks
  dsimp only
  rw [hi, Option.bind_some, hops]
  rfl

/-- A commit that does not overlook a change has selected the row as it is, if it has selected the
text that it is to store. -/
theorem row_of_not_overlooks {r : Request Key Nonce} {rest : List (Op Key Nonce)}
    (hi : s.requests[i]? = some r) (hops : r.ops = .commit f d :: rest)
    (hseen : s.overlooks C (.advance i nonce) = false)
    (hselected : d.selected = some (text C f d)) :
    ∀ row ∈ s.rows.lookup f.dbKey, row = text C f d := by
  intro row hrow
  rw [overlooks_advance hi hops] at hseen
  by_contra hne
  simp [overlooksOp, hselected, Option.mem_def.mp hrow, hne] at hseen

theorem Holds.runOp (h : Holds C s) {r : Request Key Nonce} {op : Op Key Nonce}
    {rest : List (Op Key Nonce)} (hi : s.requests[i]? = some r) (hops : r.ops = op :: rest)
    (hseen : s.overlooks C (.advance i nonce) = false) :
    Holds C (s.runOp C nonce i r op rest) := by
  cases op with
  | select f value => exact h.of_eq rfl rfl
  | commit f d =>
    unfold KeyWorld.runOp
    dsimp only
    cases hcommit : s.commit C f d with
    | none => exact h.of_eq rfl rfl
    | some s' =>
      have hs' := h.commit (row_of_not_overlooks hi hops hseen) hcommit
      exact hs'.of_eq rfl rfl
  | assign f value => exact h.of_eq rfl rfl
  | read f => exact h.of_eq rfl rfl
  | respond => exact h.of_eq rfl rfl

/-- The operations of the requests are done one at a time. -/
theorem step_advance (hs : s.step C (.advance i nonce) = some s') :
    ∃ r op rest, s.requests[i]? = some r ∧ r.ops = op :: rest ∧
      s' = s.runOp C nonce i r op rest := by
  simp only [KeyWorld.step] at hs
  split at hs
  · cases hs
  · rename_i r hi
    split at hs
    · cases hs
    · rename_i op rest hops
      exact ⟨r, op, rest, hi, hops, (Option.some.inj hs).symm⟩

theorem Holds.step (h : Holds C s) (hseen : s.overlooks C a = false)
    (hs : s.step C a = some s') : Holds C s' := by
  cases a with
  | get process =>
    obtain rfl := Option.some.inj hs
    exact h.of_eq rfl rfl
  | put process body =>
    simp only [KeyWorld.step] at hs
    split at hs <;> obtain rfl := Option.some.inj hs <;> exact h.of_eq rfl rfl
  | advance i nonce =>
    obtain ⟨r, op, rest, hi, hops, rfl⟩ := step_advance hs
    exact h.runOp hi hops hseen
  | restart process =>
    obtain rfl := Option.some.inj hs
    exact h.of_eq rfl rfl
  | redeploy fernetKey env =>
    obtain rfl := Option.some.inj hs
    exact h.of_eq rfl rfl

/-- After a commit that overlooks a change, the table has what the other request has entered. -/
theorem not_holds_of_overlooks (hlost : s.overlooks C a = true) (hs : s.step C a = some s') :
    ¬Holds C s' := by
  cases a with
  | get | put | restart | redeploy => cases hlost
  | advance i nonce =>
    obtain ⟨r, op, rest, hi, hops, rfl⟩ := step_advance hs
    rw [overlooks_advance hi hops] at hlost
    cases op with
    | select | assign | read | respond => cases hlost
    | commit f d =>
      rw [overlooksOp, Bool.and_eq_true, decide_eq_true_eq, Option.any_eq_true] at hlost
      obtain ⟨hselected, row, hrow, hne⟩ := hlost
      have hrow : s.rows.lookup f.dbKey = some row := hrow
      have hkeep : s.commit C f d =
          some { s with asked := Function.update s.asked f d.asked } := by
        unfold KeyWorld.commit
        rw [hselected, hrow]
        simp
      unfold KeyWorld.runOp
      dsimp only
      rw [hkeep]
      intro h
      have hf := h f
      rw [show getSetting s.rows f.dbKey = row from getSetting_of_lookup hrow] at hf
      dsimp only at hf
      rw [Function.update_self] at hf
      exact absurd hf (of_decide_eq_true hne)

/-- What the workers get for a field. -/
structure Serves (C : Fernet Key Nonce) (s : KeyWorld Key Nonce) (f : KeyField) : Prop where
  /-- never entered, or cleared -/
  cleared : s.asked f = none → s.effective C f = s.env f
  plain : f.isEncrypted = false → ∀ a ∈ s.asked f, s.effective C f = a.value
  /-- what was entered, exactly if the encryption key is still the same -/
  token : f.isEncrypted = true → ∀ a ∈ s.asked f, ∀ k ∈ a.key,
    (s.effective C f = a.value ↔ s.fernetKey = some k)
  /-- otherwise the token -/
  changed : f.isEncrypted = true → ∀ a ∈ s.asked f, ∀ k ∈ a.key, s.fernetKey ≠ some k →
    s.effective C f = C.encrypt k a.nonce a.value
  /-- what was entered without an encryption key is read with one that has been set since -/
  unprotected : f.isEncrypted = true → ∀ a ∈ s.asked f, a.key = none →
    s.effective C f = orElse (some (tryDecrypt C s.fernetKey a.value)) (s.env f)

theorem Holds.effective (h : Holds C s) {a : Asked Key Nonce} (ha : a ∈ s.asked f) :
    s.effective C f = if f.isEncrypted then
      orElse (some (tryDecrypt C s.fernetKey (tryEncrypt C a.key a.nonce a.value))) (s.env f)
      else a.value := by
  unfold KeyWorld.effective getEncryptedSetting
  rw [h f, ha, Option.map_some]
  split
  · rename_i he
    simp [stored, he]
  · rename_i he
    rw [stored, if_neg he]
    exact orElse_some a.ne_nil

theorem Holds.serves (h : Holds C s) (f : KeyField) : Serves C s f where
  cleared := by
    intro hnone
    unfold KeyWorld.effective getEncryptedSetting
    rw [h f, hnone, Option.map_none, Option.map_none, orElse_none, ite_self]
  plain := by
    intro hf a ha
    rw [h.effective ha, hf, if_neg (by simp)]
  token := by
    intro hf a ha k hk
    rw [h.effective ha, if_pos hf, hk]
    constructor
    · intro heq
      by_contra hne
      rw [show tryEncrypt C (some k) a.nonce a.value = C.encrypt k a.nonce a.value from rfl,
        tryDecrypt_encrypt_other hne, orElse_some (encrypt_ne_nil _ _ _)] at heq
      exact encrypt_ne _ _ _ heq
    · intro hkey
      rw [hkey, tryDecrypt_tryEncrypt, orElse_some a.ne_nil]
  changed := by
    intro hf a ha k hk hne
    rw [h.effective ha, if_pos hf, hk,
      show tryEncrypt C (some k) a.nonce a.value = C.encrypt k a.nonce a.value from rfl,
      tryDecrypt_encrypt_other hne, orElse_some (encrypt_ne_nil _ _ _)]
  unprotected := by
    intro hf a ha hnone
    rw [h.effective ha, if_pos hf, hnone]
    rfl

/-- In all states of a run the table has what was entered last, and the workers get it as far as
the encryption key allows, exactly if no commit overlooks a change of its row. -/
theorem serves_iff (h : Holds C s) (as : List (KeyAction Key Nonce)) :
    Run.AllStates (KeyWorld.step C) (fun s => Holds C s ∧ ∀ f, Serves C s f) s as ↔
      Run.AllSteps (KeyWorld.step C) (fun s a => s.overlooks C a = false) s as :=
  Run.allStates_iff_allSteps (I := Holds C) (fun _ hs => ⟨hs, hs.serves⟩)
    (fun _ _ _ hs hseen hstep => hs.step hseen hstep)
    (fun _ _ _ _ hlost hstep hholds =>
      not_holds_of_overlooks (by simpa using hlost) hstep hholds.1) h as

/-- A toy cipher that writes its key into the token. -/
def toyFernet : Fernet Bool Unit where
  encrypt k _ m := "gAAAAA".toList ++ (if k then '1' else '0') :: m
  decrypt k s := match s.drop 6 with
    | [] => none
    | c :: m => if c = (if k then '1' else '0') then some m else none
  decrypt_encrypt := by
    intro k r m
    cases k <;> simp
  decrypt_other := by
    intro k k' r m h
    cases k <;> cases k' <;> simp_all
  marked := by
    intro k r m
    simp
  longer := by
    intro k r m
    simp
    omega

/-- Nothing has been entered yet. -/
def freshKeys : KeyWorld Bool Unit where
  rows := ∅
  fernetKey := some true
  env := fun _ => []
  settings := fun _ _ => []

/-- An update of one key. -/
def setKey (process : ℕ) (value : Option String) : KeyAction Bool Unit :=
  .put process fun f => if f = .anthropicApiKey then .set (value.map String.toList) else .unset

/-- The update is served to its end. -/
def enterKey (key : String) : List (KeyAction Bool Unit) :=
  setKey 0 (some key) :: List.replicate 15 (.advance 0 ())

theorem holds_freshKeys : Holds toyFernet freshKeys := fun _ => rfl

/-- A key is entered, then cleared by one request while another enters a new one, and the
encryption key is changed. -/
theorem serves_iff_enterKey : Holds toyFernet freshKeys ∧
    Run.AllStates (KeyWorld.step toyFernet)
      (fun s => Holds toyFernet s ∧ ∀ f, Serves toyFernet s f) freshKeys
      (enterKey "sk-abc12-first" ++ [setKey 0 none, setKey 1 (some "sk-abc12-second"),
        .advance 1 (), .advance 2 (), .advance 1 (), .advance 2 (),
        .redeploy (some false) fun _ => []]) :=
  ⟨holds_freshKeys, (serves_iff holds_freshKeys _).mpr
    (Run.AllSteps.of_check (c := fun s a => !s.overlooks toyFernet a)
      (fun _ _ h => by simpa using h) (by decide +kernel))⟩

/-- One request clears a key that is clear, and another enters one meanwhile: it stays. -/
example : (Run.exec (KeyWorld.step toyFernet) freshKeys
    ([setKey 0 none] ++ List.replicate 15 (.advance 0 ()) ++
      [setKey 0 none, .advance 1 ()] ++ [setKey 1 (some "sk-abc12")] ++
      List.replicate 15 (.advance 2 ()) ++ [.advance 1 ()])).map
      (fun s => (s.effective toyFernet .anthropicApiKey, (s.asked .anthropicApiKey).isSome)) =
    some ("sk-abc12".toList, false) := by
  decide +kernel

/-! ## What the API shows -/

/-- Values of a field that the API does not tell apart. -/
def SameView (f : KeyField) (value value' : List Char) : Prop :=
  if f.isEncrypted then value.take 8 = value'.take 8 else value = value'

theorem SameView.refl (f : KeyField) (value : List Char) : SameView f value value := by
  unfold SameView
  split <;> rfl

theorem SameView.take (h : SameView f value value') : value.take 8 = value'.take 8 := by
  unfold SameView at h
  split at h
  · exact h
  · rw [h]

/-- A value is not taken for a cleared one. -/
theorem SameView.nil_iff (h : SameView f value value') : value = [] ↔ value' = [] := by
  have hlen := congrArg List.length h.take
  rw [List.length_take, List.length_take] at hlen
  rw [← List.length_eq_zero_iff, ← List.length_eq_zero_iff]
  omega

theorem SameView.mask (h : SameView f value value') : mask value = mask value' := by
  unfold Settings.mask
  have htake (v : List Char) : v.take (min 8 v.length) = v.take 8 := by
    rw [List.take_eq_take_iff]
    omega
  rw [htake, htake, h.take]
  simp only [h.nil_iff]

/-- Values that may be null. -/
def SameStored (f : KeyField) : Option (List Char) → Option (List Char) → Prop :=
  Option.Rel (SameView f)

theorem SameStored.refl (f : KeyField) (value : Option (List Char)) :
    SameStored f value value := by
  cases value with
  | none => exact .none
  | some v => exact .some (.refl f v)

theorem SameView.orElse {v w : Option (List Char)} (h : SameStored f v w)
    (hfallback : SameView f value value') : SameView f (orElse v value) (orElse w value') := by
  cases h with
  | none => simpa [Settings.orElse] using hfallback
  | @some x y hxy =>
    unfold Settings.orElse
    simp only [Option.getD_some, hxy.nil_iff]
    split
    · exact hfallback
    · exact hxy

/-- A field of the answers. -/
def shown (f : KeyField) (value : List Char) : KeyView :=
  if f.isEncrypted then .status (value ≠ []) (mask value) else .plain value

theorem SameView.shown (h : SameView f value value') : shown f value = shown f value' := by
  unfold KeyWorld.shown
  split
  · rw [h.mask]
    simp only [ne_eq, h.nil_iff]
  · rename_i hf
    rw [SameView, if_neg hf] at h
    rw [h]

/-! ## Two runs -/

/-- What is read again, with an encryption key, of a value that was stored. -/
def readBack (C : Fernet Key Nonce) (key : Option Key) (f : KeyField) (a : Asked Key Nonce) :
    List Char :=
  if f.isEncrypted then tryDecrypt C key (stored C f a) else stored C f a

/-- Drafts of which the same can be seen. -/
structure SameDraft (C : Fernet Key Nonce) (key : Option Key) (f : KeyField)
    (d d' : Draft Key Nonce) : Prop where
  asked : SameStored f (d.asked.map (readBack C key f)) (d'.asked.map (readBack C key f))
  selected : d.selected.isSome = d'.selected.isSome

inductive SameOp (C : Fernet Key Nonce) (key : Option Key) :
    Op Key Nonce → Op Key Nonce → Prop
  | select (f : KeyField) {value value' : List Char} (h : SameView f value value') :
      SameOp C key (.select f value) (.select f value')
  | commit (f : KeyField) {d d' : Draft Key Nonce} (h : SameDraft C key f d d') :
      SameOp C key (.commit f d) (.commit f d')
  | assign (f : KeyField) {value value' : List Char} (h : SameView f value value') :
      SameOp C key (.assign f value) (.assign f value')
  | read (f : KeyField) : SameOp C key (.read f) (.read f)
  | respond : SameOp C key .respond .respond

structure SameRequest (C : Fernet Key Nonce) (key : Option Key) (r r' : Request Key Nonce) :
    Prop where
  process : r.process = r'.process
  ops : List.Forall₂ (SameOp C key) r.ops r'.ops
  view : r.view = r'.view

inductive SameUpdate (f : KeyField) : FieldUpdate (List Char) → FieldUpdate (List Char) → Prop
  | unset : SameUpdate f .unset .unset
  | set {value value' : Option (List Char)} (h : SameView f (value.getD []) (value'.getD [])) :
      SameUpdate f (.set value) (.set value')

/-- The same requests, with keys that start with the same eight characters, and the nonces as they
come. -/
inductive SameAction : KeyAction Key Nonce → KeyAction Key Nonce → Prop
  | get (process : ℕ) : SameAction (.get process) (.get process)
  | put (process : ℕ) {body body' : APIKeysSettingsUpdate}
      (h : ∀ f, SameUpdate f (body f) (body' f)) :
      SameAction (.put process body) (.put process body')
  | advance (i : ℕ) (nonce nonce' : Nonce) : SameAction (.advance i nonce) (.advance i nonce')
  | restart (process : ℕ) : SameAction (.restart process) (.restart process)
  | redeploy (key : Option Key) {env env' : KeyField → List Char}
      (h : ∀ f, SameView f (env f) (env' f)) :
      SameAction (.redeploy key env) (.redeploy key env')

/-- The encryption key is not changed. -/
def KeepsKey (key : Option Key) : KeyAction Key Nonce → Prop
  | .redeploy key' _ => key' = key
  | _ => True

/-- What a process reads in the table. -/
def readValue (C : Fernet Key Nonce) (s : KeyWorld Key Nonce) (f : KeyField) :
    Option (List Char) :=
  if f.isEncrypted then getEncryptedSetting C s.fernetKey s.rows f.dbKey
  else getSetting s.rows f.dbKey

theorem keyView_eq_shown : s.keyView C process f =
    shown f (orElse (readValue C s f) (s.settings process f)) := by
  unfold keyView shown readValue
  cases f.isEncrypted <;> rfl

theorem readValue_of_getSetting (hkey : s.fernetKey = key)
    (hrow : getSetting s.rows f.dbKey = text C f d) :
    readValue C s f = d.asked.map (readBack C key f) := by
  unfold readValue getEncryptedSetting
  rw [hrow, hkey]
  unfold text readBack
  cases f.isEncrypted with
  | true => rw [if_pos rfl, Option.map_map]; rfl
  | false => rfl

theorem readValue_congr (hkey : s'.fernetKey = s.fernetKey)
    (hrow : getSetting s'.rows f.dbKey = getSetting s.rows f.dbKey) :
    readValue C s' f = readValue C s f := by
  unfold readValue getEncryptedSetting
  rw [hrow, hkey]

theorem readBack_draft {a : Asked Key Nonce} (hkey : a.key = key) :
    readBack C key f a = a.value := by
  unfold readBack stored
  rw [hkey]
  split
  · exact tryDecrypt_tryEncrypt key a.nonce a.value
  · rfl

theorem asked_draft (C : Fernet Key Nonce) (hkey : s.fernetKey = key) (nonce : Nonce)
    (f : KeyField) (value : List Char) :
    (s.draft nonce f value).asked.map (readBack C key f) =
      if value = [] then none else some value := by
  unfold KeyWorld.draft
  dsimp only
  split
  · rfl
  · exact congrArg some (readBack_draft hkey)

structure SameWorld (C : Fernet Key Nonce) (key : Option Key) (s t : KeyWorld Key Nonce) :
    Prop where
  fernetKey : s.fernetKey = key
  fernetKey' : t.fernetKey = key
  env : ∀ f, SameView f (s.env f) (t.env f)
  settings : ∀ process f, SameView f (s.settings process f) (t.settings process f)
  rows : ∀ f, SameStored f (readValue C s f) (readValue C t f)
  present : ∀ f : KeyField, (s.rows.lookup f.dbKey).isSome = (t.rows.lookup f.dbKey).isSome
  requests : List.Forall₂ (SameRequest C key) s.requests t.requests
  responses : s.responses = t.responses

theorem SameWorld.refl (C : Fernet Key Nonce) (s : KeyWorld Key Nonce) :
    SameWorld C s.fernetKey s s where
  fernetKey := rfl
  fernetKey' := rfl
  env := fun f => .refl f _
  settings := fun _ f => .refl f _
  rows := fun f => .refl f _
  present := fun _ => rfl
  requests := by
    refine List.forall₂_same.mpr fun r _ => ⟨rfl, List.forall₂_same.mpr fun op _ => ?_, rfl⟩
    cases op with
    | select f value => exact .select f (.refl f value)
    | commit f d => exact .commit f ⟨.refl f _, rfl⟩
    | assign f value => exact .assign f (.refl f value)
    | read f => exact .read f
    | respond => exact .respond
  responses := rfl

variable {key : Option Key} {r r' : Request Key Nonce} {op op' : Op Key Nonce}
  {rest rest' : List (Op Key Nonce)} {d' : Draft Key Nonce}

theorem sameOps_getOps : List.Forall₂ (SameOp C key) getOps getOps := by
  unfold getOps
  refine List.rel_append (List.forall₂_same.mpr fun op hop => ?_) (.cons .respond .nil)
  obtain ⟨f, -, rfl⟩ := List.mem_map.mp hop
  exact .read f

theorem sameOps_putOps {body body' : APIKeysSettingsUpdate}
    (h : ∀ f, SameUpdate f (body f) (body' f)) :
    List.Forall₂ (SameOp C key) (putOps body) (putOps body') := by
  have hfield (f : KeyField) :
      List.Forall₂ (SameOp C key) (fieldOps body f) (fieldOps body' f) := by
    have hf := h f
    unfold fieldOps
    generalize body f = update, body' f = update' at hf
    cases hf with
    | unset => exact .nil
    | set hv => exact .cons (.select f hv) (.cons (.assign f hv) .nil)
  unfold putOps
  refine List.rel_append ?_ sameOps_getOps
  induction KeyField.updateOrder with
  | nil => exact .nil
  | cons f fs ih =>
    rw [List.flatMap_cons, List.flatMap_cons]
    exact List.rel_append (hfield f) ih

/-- What is at hand after the `SELECT`. -/
theorem SameWorld.draft (h : SameWorld C key s t) (nonce nonce' : Nonce)
    (hv : SameView f value value') :
    SameDraft C key f (s.draft nonce f value) (t.draft nonce' f value') where
  asked := by
    rw [asked_draft C h.fernetKey, asked_draft C h.fernetKey']
    simp only [hv.nil_iff]
    split
    · exact .none
    · exact .some hv
  selected := h.present f

/-- The world after a commit that has overlooked nothing. -/
structure Committed (C : Fernet Key Nonce) (f : KeyField) (d : Draft Key Nonce)
    (s s' : KeyWorld Key Nonce) : Prop where
  fernetKey : s'.fernetKey = s.fernetKey
  env : s'.env = s.env
  settings : s'.settings = s.settings
  requests : s'.requests = s.requests
  responses : s'.responses = s.responses
  row : getSetting s'.rows f.dbKey = text C f d
  others : ∀ g ≠ f, getSetting s'.rows g.dbKey = getSetting s.rows g.dbKey
  present : ∀ g : KeyField, (s'.rows.lookup g.dbKey).isSome =
    if g = f then true else (s.rows.lookup g.dbKey).isSome

theorem committed_of_commit
    (hrow : d.selected = some (text C f d) → ∀ row ∈ s.rows.lookup f.dbKey, row = text C f d)
    (hs : s.commit C f d = some s') : Committed C f d s s' := by
  rcases s.commit_cases C f d with hfail | hwrite | ⟨row, hselected, hlookup, hkeep⟩
  · rw [hfail] at hs
    cases hs
  · obtain rfl := Option.some.inj (hwrite.symm.trans hs)
    have hkey {g : KeyField} (hg : g ≠ f) : g.dbKey ≠ f.dbKey :=
      fun he => hg (KeyField.dbKey_injective he)
    refine ⟨rfl, rfl, rfl, rfl, rfl, getSetting_setSetting_self,
      fun g hg => getSetting_setSetting_ne (hkey hg), fun g => ?_⟩
    unfold setSetting
    split
    · rename_i hg
      rw [hg, AList.lookup_insert]
      rfl
    · rename_i hg
      rw [AList.lookup_insert_ne (hkey hg)]
  · obtain rfl := Option.some.inj (hkeep.symm.trans hs)
    refine ⟨rfl, rfl, rfl, rfl, rfl, ?_, fun g hg => rfl, fun g => ?_⟩
    · rw [getSetting_of_lookup hlookup, hrow hselected row hlookup]
    · split
      · rename_i hg
        rw [hg, hlookup]
        rfl
      · rfl

/-- A commit fails exactly if a row has come or gone since the `SELECT`. -/
theorem commit_eq_none_iff : s.commit C f d = none ↔
    d.selected.isSome ≠ (s.rows.lookup f.dbKey).isSome := by
  unfold KeyWorld.commit
  cases d.selected <;> cases s.rows.lookup f.dbKey <;> simp

theorem SameWorld.committed (h : SameWorld C key s t) (hd : SameDraft C key f d d')
    (hs : Committed C f d s s') {t' : KeyWorld Key Nonce} (ht : Committed C f d' t t') :
    SameWorld C key s' t' where
  fernetKey := hs.fernetKey.trans h.fernetKey
  fernetKey' := ht.fernetKey.trans h.fernetKey'
  env := by
    rw [hs.env, ht.env]
    exact h.env
  settings := by
    rw [hs.settings, ht.settings]
    exact h.settings
  rows := by
    intro g
    by_cases hg : g = f
    · subst hg
      rw [readValue_of_getSetting (hs.fernetKey.trans h.fernetKey) hs.row,
        readValue_of_getSetting (ht.fernetKey.trans h.fernetKey') ht.row]
      exact hd.asked
    · rw [readValue_congr hs.fernetKey (hs.others g hg),
        readValue_congr ht.fernetKey (ht.others g hg)]
      exact h.rows g
  present := by
    intro g
    rw [hs.present, ht.present, h.present g]
  requests := by
    rw [hs.requests, ht.requests]
    exact h.requests
  responses := by
    rw [hs.responses, ht.responses]
    exact h.responses

theorem SameWorld.assign (h : SameWorld C key s t) (process : ℕ)
    (hv : SameView f value value') :
    SameWorld C key (s.assign process f value) (t.assign process f value') where
  fernetKey := h.fernetKey
  fernetKey' := h.fernetKey'
  env := h.env
  settings := by
    intro p g
    unfold KeyWorld.assign
    by_cases hp : p = process
    · subst hp
      by_cases hg : g = f
      · subst hg
        simpa using hv
      · simpa [hg] using h.settings p g
    · simpa [hp] using h.settings p g
  rows := h.rows
  present := h.present
  requests := h.requests
  responses := h.responses

/-- A step of a request, and of the same request in the other run. -/
theorem SameWorld.runOp (h : SameWorld C key s t) (nonce nonce' : Nonce)
    (hi : s.requests[i]? = some r) (hi' : t.requests[i]? = some r')
    (hops : r.ops = op :: rest) (hops' : r'.ops = op' :: rest')
    (hr : SameRequest C key r r') (hop : SameOp C key op op')
    (hrest : List.Forall₂ (SameOp C key) rest rest')
    (hseen : s.overlooks C (.advance i nonce) = false)
    (hseen' : t.overlooks C (.advance i nonce') = false) :
    SameWorld C key (s.runOp C nonce i r op rest) (t.runOp C nonce' i r' op' rest') := by
  have hnext : SameRequest C key { r with ops := rest } { r' with ops := rest' } :=
    ⟨hr.process, hrest, hr.view⟩
  cases hop with
  | select f hv =>
    exact { h with
      requests := Pool.forall₂_set_both h.requests
        ⟨hr.process, .cons (.commit f (h.draft nonce nonce' hv)) hrest, hr.view⟩ }
  | @commit f d d' hd =>
    unfold KeyWorld.runOp
    dsimp only
    have hnone : s.commit C f d = none ↔ t.commit C f d' = none := by
      rw [commit_eq_none_iff, commit_eq_none_iff, hd.selected, h.present f]
    cases hcommit : s.commit C f d with
    | none =>
      rw [hnone.mp hcommit]
      exact { h with
        requests := Pool.forall₂_set_both h.requests ⟨hr.process, .nil, hr.view⟩
        responses := congrArg (· ++ _) h.responses }
    | some s' =>
      cases hcommit' : t.commit C f d' with
      | none =>
        rw [hnone.mpr hcommit'] at hcommit
        cases hcommit
      | some t' =>
        have hs' := committed_of_commit (row_of_not_overlooks hi hops hseen) hcommit
        have ht' := committed_of_commit (row_of_not_overlooks hi' hops' hseen') hcommit'
        have hw := h.committed hd hs' ht'
        exact { hw with requests := Pool.forall₂_set_both h.requests hnext }
  | @assign f v v' hv =>
    have hw : SameWorld C key (s.assign r.process f v) (t.assign r'.process f v') := by
      rw [← hr.process]
      exact h.assign r.process hv
    exact { hw with requests := Pool.forall₂_set_both hw.requests hnext }
  | read f =>
    refine { h with requests := Pool.forall₂_set_both h.requests ⟨hr.process, hrest, ?_⟩ }
    have hview : s.keyView C r.process f = t.keyView C r'.process f := by
      rw [keyView_eq_shown, keyView_eq_shown, ← hr.process]
      exact (SameView.orElse (h.rows f) (h.settings r.process f)).shown
    show r.view ++ _ = r'.view ++ _
    rw [hr.view, hview]
  | respond =>
    refine { h with
      requests := Pool.forall₂_set_both h.requests hnext
      responses := ?_ }
    show s.responses ++ _ = t.responses ++ _
    rw [h.responses, hr.view]

theorem SameUpdate.unknownProvider {body body' : APIKeysSettingsUpdate}
    (h : ∀ f, SameUpdate f (body f) (body' f)) :
    unknownProvider body = unknownProvider body' := by
  have hf := h .llmProvider
  unfold Settings.unknownProvider
  generalize body .llmProvider = update, body' .llmProvider = update' at hf
  cases hf with
  | unset => rfl
  | @set v v' hv =>
    -- the provider is not encrypted
    have hv : v.getD [] = v'.getD [] := hv
    dsimp only
    rw [hv]

/-- One step of the two runs. -/
theorem SameWorld.step {a' : KeyAction Key Nonce} (h : SameWorld C key s t)
    (ha : SameAction a a') (hkey : KeepsKey key a) (hseen : s.overlooks C a = false)
    (hseen' : ∀ t', t.step C a' = some t' → t.overlooks C a' = false)
    (hs : s.step C a = some s') :
    ∃ t', t.step C a' = some t' ∧ SameWorld C key s' t' := by
  cases ha with
  | get process =>
    obtain rfl := Option.some.inj hs
    exact ⟨_, rfl, { h with
      requests := List.rel_append h.requests (.cons ⟨rfl, sameOps_getOps, rfl⟩ .nil) }⟩
  | put process hbody =>
    simp only [KeyWorld.step, ← SameUpdate.unknownProvider hbody] at hs ⊢
    split at hs <;> obtain rfl := Option.some.inj hs
    · exact ⟨_, rfl, { h with responses := congrArg (· ++ _) h.responses }⟩
    · exact ⟨_, rfl, { h with
        requests := List.rel_append h.requests (.cons ⟨rfl, sameOps_putOps hbody, rfl⟩ .nil) }⟩
  | advance i nonce nonce' =>
    obtain ⟨r, op, rest, hi, hops, rfl⟩ := step_advance hs
    obtain ⟨r', hi', hr⟩ := Pool.forall₂_get_left h.requests hi
    have hboth := hr.ops
    rw [hops] at hboth
    cases hops' : r'.ops with
    | nil =>
      rw [hops'] at hboth
      cases hboth
    | cons op' rest' =>
      rw [hops'] at hboth
      obtain ⟨hop, hrest⟩ := List.forall₂_cons.mp hboth
      have hstep : t.step C (.advance i nonce') = some (t.runOp C nonce' i r' op' rest') := by
        simp only [KeyWorld.step, hi', hops']
      exact ⟨_, hstep, h.runOp nonce nonce' hi hi' hops hops' hr hop hrest hseen
        (hseen' _ hstep)⟩
  | restart process =>
    obtain rfl := Option.some.inj hs
    refine ⟨_, rfl, { h with
      settings := fun p f => ?_
      requests := ?_ }⟩
    · by_cases hp : p = process
      · subst hp
        simpa using h.env f
      · simpa [hp] using h.settings p f
    · refine List.forall₂_map_left_iff.mpr (List.forall₂_map_right_iff.mpr ?_)
      refine h.requests.imp fun r r' hr => ?_
      rw [← hr.process]
      split
      · exact ⟨rfl, .nil, hr.view⟩
      · exact ⟨hr.process, hr.ops, hr.view⟩
  | redeploy key' henv =>
    obtain rfl := Option.some.inj hs
    have hkey : key' = key := hkey
    refine ⟨_, rfl, ?_⟩
    have hsame : s.fernetKey = key' := h.fernetKey.trans hkey.symm
    have hsame' : t.fernetKey = key' := h.fernetKey'.trans hkey.symm
    exact {
      fernetKey := hkey
      fernetKey' := hkey
      env := henv
      settings := fun _ => henv
      rows := by
        intro f
        have hf := h.rows f
        unfold readValue at hf ⊢
        rw [hsame, hsame'] at hf
        exact hf
      present := h.present
      requests := List.forall₂_map_left_iff.mpr (List.forall₂_map_right_iff.mpr
        (h.requests.imp fun r r' hr => ⟨hr.process, .nil, hr.view⟩))
      responses := h.responses }

/-- Two runs with keys that start with the same eight characters, also in the environment, get the
same answers, if the encryption key is not changed and no commit overlooks a change of its row. -/
theorem responses_eq_of_sameRun {as as' : List (KeyAction Key Nonce)}
    (hacts : List.Forall₂ SameAction as as') (hkey : ∀ a ∈ as, KeepsKey s.fernetKey a)
    (hseen : Run.AllSteps (KeyWorld.step C) (fun s a => s.overlooks C a = false) s as)
    (hseen' : Run.AllSteps (KeyWorld.step C) (fun s a => s.overlooks C a = false) s as')
    (hs : Run.exec (KeyWorld.step C) s as = some s') :
    ∃ t', Run.exec (KeyWorld.step C) s as' = some t' ∧ t'.responses = s'.responses := by
  have hboth := (List.forall₂_and_left _ _).mpr ⟨hkey, hacts⟩
  obtain ⟨t', ht', hsame⟩ := Run.exec_lockstep (R := SameWorld C s.fernetKey)
    (fun u v a a' u' hR ha hC hC' hu => SameWorld.step hR ha.2 ha.1 hC hC' hu) (.refl C s) hboth
    hseen hseen' hs
  exact ⟨t', ht', hsame.responses.symm⟩

theorem sameAction_setKey (process : ℕ) {key key' : String}
    (h : key.toList.take 8 = key'.toList.take 8) :
    SameAction (setKey process (some key)) (setKey process (some key')) := by
  refine .put process fun f => ?_
  split
  · rename_i hf
    subst hf
    exact .set h
  · exact .unset

theorem responses_eq_of_sameRun_enterKey :
    ∃ s' t', Run.exec (KeyWorld.step toyFernet) freshKeys (enterKey "sk-abc12-first") = some s' ∧
      Run.exec (KeyWorld.step toyFernet) freshKeys (enterKey "sk-abc12-other") = some t' ∧
      t'.responses = s'.responses ∧ s'.responses.length = 1 := by
  have hsome : (Run.exec (KeyWorld.step toyFernet) freshKeys
      (enterKey "sk-abc12-first")).isSome = true := by decide +kernel
  obtain ⟨s', hs'⟩ := Option.isSome_iff_exists.mp hsome
  have hone : (Run.exec (KeyWorld.step toyFernet) freshKeys
      (enterKey "sk-abc12-first")).map (·.responses.length) = some 1 := by decide +kernel
  have hkey : ∀ a ∈ enterKey "sk-abc12-first", KeepsKey (some true) a := by
    intro a ha
    rcases List.mem_cons.mp ha with rfl | ha
    · trivial
    · rw [List.eq_of_mem_replicate ha]
      trivial
  have hacts : List.Forall₂ SameAction (enterKey "sk-abc12-first")
      (enterKey "sk-abc12-other") :=
    .cons (sameAction_setKey 0 (by decide))
      (List.forall₂_same.mpr fun a ha => by
        rw [List.eq_of_mem_replicate ha]
        exact .advance 0 () ())
  obtain ⟨t', ht', heq⟩ := responses_eq_of_sameRun hacts hkey
    (Run.AllSteps.of_check (c := fun s a => !s.overlooks toyFernet a)
      (fun _ _ h => by simpa using h) (by decide +kernel))
    (Run.AllSteps.of_check (c := fun s a => !s.overlooks toyFernet a)
      (fun _ _ h => by simpa using h) (by decide +kernel)) hs'
  refine ⟨s', t', hs', ht', heq, ?_⟩
  rw [hs'] at hone
  exact Option.some.inj hone

end KeyWorld

end Settings
end LeadPulse
