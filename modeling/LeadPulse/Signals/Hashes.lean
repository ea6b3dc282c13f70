import LeadPulse.Dedup.Conserves
import LeadPulse.Lib.PyStr
import LeadPulse.Lib.Run

/-!
# Signals with a content hash

The writers of `signals.raw_content_hash`: `import_content` (`api/v1/companies.py`), the
signals that `LinkedInIntelligenceService.process_company` makes of posts
(`services/linkedin_intelligence.py`), and `merge_companies`. None of them can rely on a
constraint of the table. A run is any sequence of them.

The hash itself, SHA-256 in hexadecimal digits, is a parameter. An empty hash counts as none
wherever the code looks at one, and no writer makes one.
-/

namespace LeadPulse
namespace Hashes

open PyStr Unseen Dedup

/-- `" ".join(content.split())`. -/
def normalizeSpace (content : List Char) : List Char :=
  [' '].intercalate ((content.splitOnP isSpace).filter (· ≠ []))

/-- `_content_hash`, and the same lines of `import_content`. -/
def contentHash (sha256 : List Char → String) (content : List Char) : String :=
  sha256 (normalizeSpace content)

/-- `_MIN_CONTENT_LENGTH`. -/
def minContentLength : ℕ := 50

def maxImportItems : ℕ := 50

/-- The database and the sequence of `signals.id`. -/
structure SignalStore where
  db : Database
  nextId : ℕ
deriving DecidableEq

/-! ## The writers -/

section

variable (sha256 : List Char → String)

/-- The rows that are made for the contents. -/
def newSignals (companyId : ℕ) (now : Time) : ℕ → List (List Char) → List SignalRow
  | _, [] => []
  | nextId, content :: contents =>
    { id := nextId, companyId := companyId, signalType := .noSignal,
      rawMarkdown := some (String.ofList content),
      rawContentHash := some (contentHash sha256 content), createdAt := now } ::
      newSignals companyId now (nextId + 1) contents

/-- The loop over contents: those with a hash that the company does not have yet. -/
def unseenContents (t : Tables) (companyId : ℕ) (contents : List (List Char)) :
    List (List Char) :=
  unseen (fun content => some (contentHash sha256 content)) (existingHashes t companyId) contents

/-- The inserts of a loop; a violated constraint rolls them back. -/
def insertSignals (s : SignalStore) (companyId : ℕ) (now : Time) (contents : List (List Char)) :
    Except Violation SignalStore :=
  let rows := newSignals sha256 companyId now s.nextId
    (unseenContents sha256 s.db.tables companyId contents)
  (s.db.tables.addSignals rows).check.map fun db => { db := db, nextId := s.nextId + rows.length }

/-- `import_content`, up to its commit. -/
def importContent (s : SignalStore) (companyId : ℕ) (body : List (List Char)) (now : Time) :
    Except HTTPException SignalStore :=
  match s.db.tables.company companyId with
  | none => .error ⟨404, "Company not found"⟩
  | some company =>
    if company.status = .archived then .error ⟨404, "Company not found"⟩
    else if maxImportItems < body.length then
      .error ⟨422, "Too many items: " ++ toString body.length ++ ". Maximum is " ++
        toString maxImportItems ++ " per request."⟩
    else
      let contents := body.filter fun markdown => minContentLength ≤ (strip markdown).length
      (insertSignals sha256 s companyId now contents).mapError
        fun _ => ⟨500, "Internal Server Error"⟩

/-- The posts that are long enough, stripped. -/
def longPosts (posts : List (List Char)) : List (List Char) :=
  (posts.map strip).filter fun content => minContentLength ≤ content.length

/-- `_create_signals_from_posts`. -/
def createSignalsFromPosts (s : SignalStore) (companyId : ℕ) (posts : List (List Char))
    (now : Time) : Except Violation SignalStore :=
  insertSignals sha256 s companyId now (longPosts posts)

/-- `_scrape_contact_profiles`, with the posts that are scraped for each contact, `none` for an
`ApifyError`. There is one set of hashes for all contacts. -/
def scrapeContactProfiles (contactOrder : RowOrder Contact) (s : SignalStore) (companyId : ℕ)
    (profile : Contact → Option (List (List Char))) (now : Time) : Except Violation SignalStore :=
  let contacts := contactOrder.arrange ((contactsOf s.db.tables companyId).filter fun c =>
    c.linkedinUrl ≠ none ∧ c.linkedinUrl ≠ some [])
  insertSignals sha256 s companyId now
    (contacts.flatMap fun c => longPosts ((profile c).getD []))

/-- `process_company` with the posts of the company page, up to its commit. -/
def processCompany (contactOrder : RowOrder Contact) (s : SignalStore) (companyId : ℕ)
    (posts : List (List Char)) (scrapeContacts : Bool)
    (profile : Contact → Option (List (List Char))) (now : Time) : Except Violation SignalStore :=
  match s.db.tables.company companyId with
  | none => .ok s
  | some _ => do
    let s ← createSignalsFromPosts sha256 s companyId posts now
    if scrapeContacts then scrapeContactProfiles sha256 contactOrder s companyId profile now
    else return s

/-! ## Runs -/

/-- A writer with its input. -/
inductive HashWriter where
  | importContent (companyId : ℕ) (body : List (List Char)) (now : Time)
  | processCompany (contactOrder : RowOrder Contact) (companyId : ℕ) (posts : List (List Char))
      (scrapeContacts : Bool) (profile : Contact → Option (List (List Char))) (now : Time)
  | mergeCompanies (contactOrder : RowOrder Contact) (signalOrder : RowOrder SignalRow)
      (primaryId duplicateId : ℕ)

/-- A writer that raises leaves the database as it is. -/
def HashWriter.step (U : Unicode) (s : SignalStore) : HashWriter → Option SignalStore
  | importContent companyId body now =>
    some ((Hashes.importContent sha256 s companyId body now).toOption.getD s)
  | processCompany contactOrder companyId posts scrapeContacts profile now =>
    some ((Hashes.processCompany sha256 contactOrder s companyId posts scrapeContacts profile
      now).toOption.getD s)
  | mergeCompanies contactOrder signalOrder primaryId duplicateId =>
    some (((Dedup.mergeCompanies U contactOrder signalOrder primaryId duplicateId s.db).map
      fun db => { s with db := db }).toOption.getD s)

end

/-- No two signals of a company have the same hash, among the hashes that `P` holds of. -/
def HashesUnique (P : String → Prop) (s : SignalStore) : Prop :=
  ∀ x ∈ s.db.tables.signals, ∀ y ∈ s.db.tables.signals, x.companyId = y.companyId →
    ∀ h, P h → x.rawContentHash = some h → y.rawContentHash = some h → x = y

/-! ## New signals -/

section

variable {sha256 : List Char → String} {companyId n : ℕ} {now : Time}
  {contents : List (List Char)} {x y : SignalRow} {P : String → Prop} {s s' : SignalStore}
  {h : String}

theorem mem_newSignals (hx : x ∈ newSignals sha256 companyId now n contents) :
    x.companyId = companyId ∧
      ∃ content ∈ contents, x.rawContentHash = some (contentHash sha256 content) := by
  induction contents generalizing n with
  | nil => cases hx
  | cons content contents ih =>
    rcases List.mem_cons.mp hx with rfl | hx
    · exact ⟨rfl, content, List.mem_cons_self, rfl⟩
    · obtain ⟨hc, content', hmem, hash⟩ := ih hx
      exact ⟨hc, content', List.mem_cons_of_mem content hmem, hash⟩

/-- Contents with different hashes make signals with different hashes. -/
theorem eq_of_mem_newSignals (hpair : contents.Pairwise fun c c' =>
      contentHash sha256 c ≠ contentHash sha256 c')
    (hx : x ∈ newSignals sha256 companyId now n contents)
    (hy : y ∈ newSignals sha256 companyId now n contents)
    (hash : x.rawContentHash = some h) (hash' : y.rawContentHash = some h) : x = y := by
  induction contents generalizing n with
  | nil => cases hx
  | cons content contents ih =>
    obtain ⟨hfirst, hrest⟩ := List.pairwise_cons.mp hpair
    have hlater {z : SignalRow} (hz : z ∈ newSignals sha256 companyId now (n + 1) contents)
        (hh : z.rawContentHash = some h) : contentHash sha256 content ≠ h := by
      obtain ⟨-, content', hmem, hash''⟩ := mem_newSignals hz
      rw [hash''] at hh
      rw [← Option.some.inj hh]
      exact hfirst content' hmem
    rcases List.mem_cons.mp hx with rfl | hx
    · rcases List.mem_cons.mp hy with rfl | hy
      · rfl
      · exact absurd (Option.some.inj hash) (hlater hy hash')
    · rcases List.mem_cons.mp hy with rfl | hy
      · exact absurd (Option.some.inj hash') (hlater hx hash)
      · exact ih hrest hx hy

/-- What the inserts leave in the table. -/
theorem insertSignals_signals (hok : insertSignals sha256 s companyId now contents = .ok s') :
    s'.db.tables.signals = s.db.tables.signals ++ newSignals sha256 companyId now s.nextId
      (unseenContents sha256 s.db.tables companyId contents) := by
  unfold insertSignals at hok
  dsimp only at hok
  cases hcheck : (s.db.tables.addSignals (newSignals sha256 companyId now s.nextId
      (unseenContents sha256 s.db.tables companyId contents))).check with
  | error e =>
    rw [hcheck] at hok
    cases hok
  | ok db =>
    rw [hcheck] at hok
    obtain rfl := Except.ok.inj hok
    show db.tables.signals = _
    rw [Tables.check_ok hcheck]
    rfl

theorem insertSignals_unique (hs : HashesUnique P s)
    (hok : insertSignals sha256 s companyId now contents = .ok s') : HashesUnique P s' := by
  unfold HashesUnique
  rw [insertSignals_signals hok]
  have hnew {z : SignalRow} (hz : z ∈ newSignals sha256 companyId now s.nextId
      (unseenContents sha256 s.db.tables companyId contents)) {h : String}
      (hash : z.rawContentHash = some h) :
      z.companyId = companyId ∧ h ∉ existingHashes s.db.tables companyId := by
    obtain ⟨hc, content, hmem, hash'⟩ := mem_newSignals hz
    obtain rfl := Option.some.inj (hash'.symm.trans hash)
    exact ⟨hc, not_mem_seen hmem rfl⟩
  have hold {z : SignalRow} (hz : z ∈ s.db.tables.signals) (hc : z.companyId = companyId)
      {h : String} (hash : z.rawContentHash = some h) :
      h ∈ existingHashes s.db.tables companyId :=
    List.mem_filterMap.mpr ⟨z, List.mem_filter.mpr ⟨hz, decide_eq_true hc⟩, hash⟩
  intro x hx y hy hc h hP hash hash'
  rcases List.mem_append.mp hx with hx | hx
  · rcases List.mem_append.mp hy with hy | hy
    · exact hs x hx y hy hc h hP hash hash'
    · obtain ⟨hcy, hnot⟩ := hnew hy hash'
      exact absurd (hold hx (hc.trans hcy) hash) hnot
  · obtain ⟨hcx, hnot⟩ := hnew hx hash
    rcases List.mem_append.mp hy with hy | hy
    · exact absurd (hold hy (hc.symm.trans hcx) hash') hnot
    · refine eq_of_mem_newSignals ?_ hx hy hash hash'
      exact (pairwise_unseen _ _ _).imp fun h heq => h _ rfl (congrArg some heq.symm)

/-! ## Each writer keeps hashes unique -/

theorem importContent_unique {body : List (List Char)} (hs : HashesUnique P s)
    (hok : importContent sha256 s companyId body now = .ok s') : HashesUnique P s' := by
  unfold importContent at hok
  split at hok
  · cases hok
  · dsimp only at hok
    split_ifs at hok
    cases hins : insertSignals sha256 s companyId now
        (body.filter fun markdown => minContentLength ≤ (strip markdown).length) with
    | error e =>
      rw [hins] at hok
      cases hok
    | ok s'' =>
      rw [hins] at hok
      obtain rfl := Except.ok.inj hok
      exact insertSignals_unique hs hins

theorem processCompany_unique {contactOrder : RowOrder Contact} {posts : List (List Char)}
    {scrapeContacts : Bool} {profile : Contact → Option (List (List Char))}
    (hs : HashesUnique P s) (hok : processCompany sha256 contactOrder s companyId posts
      scrapeContacts profile now = .ok s') : HashesUnique P s' := by
  unfold processCompany at hok
  split at hok
  · obtain rfl := Except.ok.inj hok
    exact hs
  · cases hposts : createSignalsFromPosts sha256 s companyId posts now with
    | error e =>
      rw [hposts] at hok
      cases hok
    | ok s₁ =>
      rw [hposts] at hok
      have hs₁ := insertSignals_unique hs hposts
      cases scrapeContacts with
      | false =>
        obtain rfl := Except.ok.inj hok
        exact hs₁
      | true => exact insertSignals_unique hs₁ hok

/-- A merge moves no hash that the primary has, and none twice. -/
theorem mergeCompanies_unique {U : Unicode} {contactOrder : RowOrder Contact}
    {signalOrder : RowOrder SignalRow} {p d : ℕ} {db : Database}
    (hs : HashesUnique (· ≠ "") s)
    (hok : mergeCompanies U contactOrder signalOrder p d s.db = .ok db) :
    HashesUnique (· ≠ "") { s with db := db } := by
  obtain ⟨hne, -, -, hrows⟩ := mergeCompanies_ok.mp hok
  have hmem {z : SignalRow} : z ∈ db.tables.signals ↔ (z ∈ s.db.tables.signals ∧ z.companyId ≠ d) ∨
      ∃ r ∈ movedSignals signalOrder s.db.tables p d, z = { r with companyId := p } := by
    rw [mergeRows_tables hrows, signals_merged hne s.db.valid]
    exact Ownership.mem_absorb s.db.valid.unique.signals (signalOrder_perm signalOrder _ _)
  -- an old signal of the primary and one that has been moved
  have hclash {z r : SignalRow} {h : String} (hz : z ∈ s.db.tables.signals)
      (hzp : z.companyId = p) (hr : r ∈ movedSignals signalOrder s.db.tables p d) (hh : h ≠ "")
      (hash : z.rawContentHash = some h) (hash' : r.rawContentHash = some h) : False := by
    refine not_mem_seen hr (hashKey_eq_some.mpr ⟨hash', hh⟩) ?_
    exact List.mem_filterMap.mpr ⟨z, List.mem_filter.mpr ⟨hz, decide_eq_true hzp⟩, hash⟩
  intro x hx y hy hc h hh hash hash'
  rcases hmem.mp hx with ⟨hx, -⟩ | ⟨r, hr, rfl⟩
  · rcases hmem.mp hy with ⟨hy, -⟩ | ⟨r, hr, rfl⟩
    · exact hs x hx y hy hc h hh hash hash'
    · exact absurd hash' fun hash' => hclash hx hc hr hh hash hash'
  · rcases hmem.mp hy with ⟨hy, -⟩ | ⟨r', hr', rfl⟩
    · exact absurd hash fun hash => hclash hy hc.symm hr hh hash' hash
    · rw [eq_of_key hr hr' (hashKey_eq_some.mpr ⟨hash, hh⟩) (hashKey_eq_some.mpr ⟨hash', hh⟩)]

theorem step_unique {U : Unicode} {w : HashWriter} (hs : HashesUnique (· ≠ "") s)
    (hstep : w.step sha256 U s = some s') : HashesUnique (· ≠ "") s' := by
  have hkeep {ε : Type} {r : Except ε SignalStore}
      (hr : ∀ t, r = .ok t → HashesUnique (· ≠ "") t) :
      HashesUnique (· ≠ "") (r.toOption.getD s) := by
    cases r with
    | error e => exact hs
    | ok t => exact hr t rfl
  cases w with
  | importContent companyId body now =>
    obtain rfl := Option.some.inj hstep
    exact hkeep fun t ht => importContent_unique hs ht
  | processCompany contactOrder companyId posts scrapeContacts profile now =>
    obtain rfl := Option.some.inj hstep
    exact hkeep fun t ht => processCompany_unique hs ht
  | mergeCompanies contactOrder signalOrder p d =>
    obtain rfl := Option.some.inj hstep
    refine hkeep fun t ht => ?_
    cases hmerge : mergeCompanies U contactOrder signalOrder p d s.db with
    | error e =>
      rw [hmerge] at ht
      cases ht
    | ok db =>
      rw [hmerge] at ht
      obtain rfl := Except.ok.inj ht
      exact mergeCompanies_unique hs hmerge

end

/-! ## Runs of the writers -/

/-- From a state without two equal hashes that are not empty, no run of the writers makes
any. -/
theorem hashesUnique_run (U : Unicode) (sha256 : List Char → String) (s : SignalStore)
    (writers : List HashWriter) (hs : HashesUnique (· ≠ "") s) :
    Run.AllStates (fun s (w : HashWriter) => w.step sha256 U s) (HashesUnique (· ≠ "")) s writers :=
  Run.AllStates.of_step (fun _ _ _ hs hstep => step_unique hs hstep) hs writers

theorem hashesUnique_run_merge :
    Run.AllStates (fun s (w : HashWriter) => w.step String.ofList .ascii s)
    (HashesUnique (· ≠ "")) ⟨twoCompanies, 3⟩
    [.mergeCompanies (.asStored _) (.asStored _) 1 2] :=
  hashesUnique_run .ascii String.ofList _ _ (by
    intro x hx y hy hc h _ hash hash'
    have hcheck : ∀ x ∈ twoCompanies.tables.signals, ∀ y ∈ twoCompanies.tables.signals,
        x.companyId = y.companyId → x = y := by decide +kernel
    exact hcheck x hx y hy hc)

/-- Two companies with a signal each whose hash is the empty string. -/
def emptyHashes : Database where
  tables :=
    { twoCompanies.tables with
      signals := twoCompanies.tables.signals.map fun s => { s with rawContentHash := some "" } }
  valid := by decide +kernel

/-- A merge keeps both of them. -/
theorem emptyHashes_not_unique : ¬ ∀ (U : Unicode) (sha256 : List Char → String) (s : SignalStore)
    (writers : List HashWriter), HashesUnique (fun _ => True) s →
    Run.AllStates (fun s (w : HashWriter) => w.step sha256 U s) (HashesUnique fun _ => True) s
      writers := by
  intro hall
  have hstart : HashesUnique (fun _ => True) ⟨emptyHashes, 3⟩ := by
    intro x hx y hy hc h _ hash hash'
    have hcheck : ∀ x ∈ emptyHashes.tables.signals, ∀ y ∈ emptyHashes.tables.signals,
        x.companyId = y.companyId → x = y := by decide +kernel
    exact hcheck x hx y hy hc
  have hrun := hall .ascii String.ofList _ [.mergeCompanies (.asStored _) (.asStored _) 1 2] hstart
  refine Run.not_allStates (q := fun s => s.db.tables.signals.any fun x =>
    s.db.tables.signals.any fun y => x.companyId = y.companyId ∧ x ≠ y ∧
      x.rawContentHash = some "" ∧ y.rawContentHash = some "") (fun s hs => ?_) ?_ hrun
  · rw [Bool.eq_false_iff]
    intro hany
    obtain ⟨x, hx, hany⟩ := List.any_eq_true.mp hany
    obtain ⟨y, hy, hxy⟩ := List.any_eq_true.mp hany
    obtain ⟨hc, hne, hash, hash'⟩ := of_decide_eq_true hxy
    exact hne (hs x hx y hy hc "" trivial hash hash')
  · decide +kernel

end Hashes
end LeadPulse
