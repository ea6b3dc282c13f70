import LeadPulse.Dedup.Conserves
import LeadPulse.Enrichment.Waterfall
import LeadPulse.Lib.Run

/-!
# The emails of a company

`enrich_company` and `merge_companies` write the contacts of a company, and no constraint of the
table keeps them from writing an email twice. Each has its own set of the emails that it has seen,
in lower case, from the rows that are stored. A run is any sequence of the two.

`emailsUnique_run`: emails that differ at the start, by more than case, differ for ever.
-/

namespace LeadPulse
namespace Enrichment

open Unseen Dedup

/-- The database and the sequence of `contacts.id`. -/
structure ContactWorld where
  db : Database
  nextId : ℕ
  fresh : ∀ c ∈ db.tables.contacts, c.id < nextId
deriving DecidableEq

namespace ContactWorld

def store (w : ContactWorld) : ContactStore := ⟨w.db.tables.contacts, w.nextId, w.fresh⟩

/-- The inserts of `_store_contacts` violate no constraint. -/
theorem constraints_of_grows {t : Tables} {store store' : ContactStore} {companyId n : ℕ}
    (hc : t.Constraints) (hstore : store.contacts = t.contacts)
    (hcompany : t.company companyId ≠ none) (h : Grows companyId n store store') :
    ({ t with contacts := store'.contacts } : Tables).Constraints := by
  obtain ⟨new, hnew, -, hmem, hnodup⟩ := h.contacts
  obtain ⟨company, hget⟩ := Option.ne_none_iff_exists'.mp hcompany
  have hid : companyId ∈ t.companies.map (·.id) :=
    List.mem_map.mpr ⟨company, Table.mem_of_get hget, Table.key_of_get hget⟩
  refine ⟨hc.notNull, { hc.foreignKeys with contacts := ?_ }, { hc.unique with contacts := ?_ }⟩
  · intro c hin
    have hin : c ∈ store.contacts ++ new := hnew ▸ hin
    rcases List.mem_append.mp hin with hold | hadded
    · exact hc.foreignKeys.contacts c (hstore ▸ hold)
    · rw [(hmem c hadded).1]
      exact hid
  · -- a new contact gets an id beyond those that are given out
    show (store'.contacts.map (·.id)).Nodup
    rw [hnew, List.map_append]
    refine List.Nodup.append ?_ hnodup ?_
    · rw [hstore]
      exact hc.unique.contacts
    · rw [List.disjoint_left]
      intro id hold hadded
      obtain ⟨c, hcold, rfl⟩ := List.mem_map.mp hold
      obtain ⟨c', hcnew, heq⟩ := List.mem_map.mp hadded
      have hlt := store.fresh c hcold
      have hle := (hmem c' hcnew).2
      have heq : c'.id = c.id := heq
      omega

/-- The world with new contacts of a company. -/
def withContacts (w : ContactWorld) (companyId : ℕ) (store' : ContactStore)
    (hcompany : w.db.tables.company companyId ≠ none)
    (h : ∃ n, Grows companyId n w.store store') : ContactWorld where
  db :=
    { tables := { w.db.tables with contacts := store'.contacts }
      valid := h.elim fun _ hgrows => constraints_of_grows w.db.valid rfl hcompany hgrows }
  nextId := store'.nextId
  fresh := store'.fresh

end ContactWorld

/-! ## The writers -/

theorem exists_grows (U : Unicode) (service : EnrichmentService) (course : Course)
    (companyId : ℕ) (ps : List Provider) (store : ContactStore) :
    ∃ n, Grows companyId n store
      (waterfallLoop U service course companyId ps (.start companyId store)).store := by
  obtain ⟨n, hgrows, -⟩ := waterfallLoop_grows U service course companyId ps
    (.start companyId store)
  exact ⟨n, hgrows⟩

/-- `enrich_company`, when the loop of the waterfall has made so many turns: four in all. -/
def ContactWorld.enrichCompany (U : Unicode) (service : EnrichmentService) (course : Course)
    (companyId turns : ℕ) (w : ContactWorld) : ContactWorld × EnrichmentResult :=
  match h : w.db.tables.company companyId with
  | none => (w, { companyId := companyId, error := some "Company not found" })
  | some company =>
    if company.domain = [] then
      (w, { companyId := companyId, error := some "Company has no domain" })
    else
      let s := waterfallLoop U service course companyId (Provider.all.take turns)
        (.start companyId w.store)
      (w.withContacts companyId s.store (by simp [h])
        (exists_grows U service course companyId _ w.store), s.result)

/-- A merge takes no new ids. -/
theorem fresh_mergeCompanies {U : Unicode} {contactOrder : RowOrder Contact}
    {signalOrder : RowOrder SignalRow} {p d : ℕ} {w : ContactWorld} {db : Database}
    (hok : mergeCompanies U contactOrder signalOrder p d w.db = .ok db) :
    ∀ c ∈ db.tables.contacts, c.id < w.nextId := by
  obtain ⟨hne, -, -, hrows⟩ := mergeCompanies_ok.mp hok
  intro c hc
  rw [mergeRows_tables hrows, mem_contacts_merged hne w.db.valid,
    Ownership.mem_absorb w.db.valid.unique.contacts (contactOrder_perm contactOrder _ _)] at hc
  rcases hc with ⟨hc, -⟩ | ⟨r, hr, rfl⟩
  · exact w.fresh c hc
  · have hmem := (Ownership.mem_order (contactOrder_perm contactOrder _ _)).mp
      (mem_of_mem_unseen hr)
    exact w.fresh r hmem.1

/-- A writer with its input. -/
inductive ContactWriter where
  | enrichCompany (service : EnrichmentService) (course : Course) (companyId turns : ℕ)
  | mergeCompanies (contactOrder : RowOrder Contact) (signalOrder : RowOrder SignalRow)
      (primaryId duplicateId : ℕ)

/-- A merge that raises leaves the database as it is. -/
def ContactWriter.step (U : Unicode) (w : ContactWorld) : ContactWriter → Option ContactWorld
  | enrichCompany service course companyId turns =>
    some (w.enrichCompany U service course companyId turns).1
  | mergeCompanies contactOrder signalOrder primaryId duplicateId =>
    match h : Dedup.mergeCompanies U contactOrder signalOrder primaryId duplicateId w.db with
    | .error _ => some w
    | .ok db => some ⟨db, w.nextId, fresh_mergeCompanies h⟩

/-! ## Emails differ -/

/-- No two contacts of a company have emails that are equal up to case. -/
def EmailsUnique (U : Unicode) (contacts : List Contact) : Prop :=
  ∀ c ∈ contacts, ∀ d ∈ contacts, c.companyId = d.companyId →
    ∀ e ∈ c.email, ∀ e' ∈ d.email, e ≠ [] → e' ≠ [] → U.lower e = U.lower e' → c = d

section

variable {U : Unicode} {contacts : List Contact} {c d : Contact} {k : List Char}

theorem emailKey_iff : Dedup.emailKey U c = some k ↔ ∃ e ∈ c.email, e ≠ [] ∧ U.lower e = k := by
  unfold Dedup.emailKey
  cases c.email with
  | none => simp
  | some e =>
    by_cases he : e = []
    · simp [he]
    · simp [he]

/-- The same in terms of the keys that the writers compare. -/
theorem emailsUnique_iff : EmailsUnique U contacts ↔
    ∀ c ∈ contacts, ∀ d ∈ contacts, c.companyId = d.companyId →
      ∀ k, Dedup.emailKey U c = some k → Dedup.emailKey U d = some k → c = d := by
  constructor
  · intro h c hc d hd howner k hk hk'
    obtain ⟨e, he, hne, hlower⟩ := emailKey_iff.mp hk
    obtain ⟨e', he', hne', hlower'⟩ := emailKey_iff.mp hk'
    exact h c hc d hd howner e he e' he' hne hne' (hlower.trans hlower'.symm)
  · intro h c hc d hd howner e he e' he' hne hne' hlower
    exact h c hc d hd howner _ (emailKey_iff.mpr ⟨e, he, hne, rfl⟩)
      (emailKey_iff.mpr ⟨e', he', hne', hlower.symm⟩)

end

/-! ## Each writer keeps emails unique -/

section

variable {U : Unicode} {store : ContactStore} {companyId : ℕ} {found : List FoundContact}
  {r r' : Contact} {k : List Char}

/-- Contacts with different keys make rows with different keys. -/
theorem eq_of_mem_numbered {n : ℕ}
    (hpair : found.Pairwise fun c d => ∀ k, c.emailKey U = some k → d.emailKey U ≠ some k)
    (hr : r ∈ ContactStore.numbered companyId n found)
    (hr' : r' ∈ ContactStore.numbered companyId n found)
    (hk : Dedup.emailKey U r = some k) (hk' : Dedup.emailKey U r' = some k) : r = r' := by
  induction found generalizing n with
  | nil => cases hr
  | cons c cs ih =>
    obtain ⟨hfirst, hrest⟩ := List.pairwise_cons.mp hpair
    have hlater {z : Contact} (hz : z ∈ ContactStore.numbered companyId (n + 1) cs)
        (hkz : Dedup.emailKey U z = some k) : c.emailKey U ≠ some k := by
      obtain ⟨-, -, c', hmem, heq⟩ := ContactStore.mem_numbered hz
      rw [heq] at hkz
      exact fun hkc => hfirst c' hmem k hkc hkz
    rcases List.mem_cons.mp hr with rfl | hr
    · rcases List.mem_cons.mp hr' with rfl | hr'
      · rfl
      · exact absurd hk (hlater hr' hk')
    · rcases List.mem_cons.mp hr' with rfl | hr'
      · exact absurd hk' (hlater hr hk)
      · exact ih hrest hr hr'

/-- `_store_contacts` adds no email that the company has, and none twice. -/
theorem storeContacts_unique {stored : ContactStore} {added : ℕ}
    (h : EmailsUnique U store.contacts)
    (hstored : store.storeContacts U companyId found = some (stored, added)) :
    EmailsUnique U stored.contacts := by
  rw [emailsUnique_iff] at h ⊢
  rw [(ContactStore.contacts_storeContacts hstored).1]
  have hnew {z : Contact} (hz : z ∈ ContactStore.numbered companyId store.nextId
      (store.newContacts U companyId found)) {k : List Char} (hk : Dedup.emailKey U z = some k) :
      z.companyId = companyId ∧ k ∉ store.existingEmails U companyId := by
    obtain ⟨-, howner, c, hc, heq⟩ := ContactStore.mem_numbered hz
    rw [heq] at hk
    exact ⟨howner, not_mem_seen hc hk⟩
  have hold {z : Contact} (hz : z ∈ store.contacts) (howner : z.companyId = companyId)
      {k : List Char} (hk : Dedup.emailKey U z = some k) :
      k ∈ store.existingEmails U companyId :=
    List.mem_filterMap.mpr ⟨z, List.mem_filter.mpr ⟨hz, decide_eq_true howner⟩, hk⟩
  intro c hc d hd howner k hk hk'
  rcases List.mem_append.mp hc with hc | hc
  · rcases List.mem_append.mp hd with hd | hd
    · exact h c hc d hd howner k hk hk'
    · obtain ⟨hcompany, hnot⟩ := hnew hd hk'
      exact absurd (hold hc (howner.trans hcompany) hk) hnot
  · obtain ⟨hcompany, hnot⟩ := hnew hc hk
    rcases List.mem_append.mp hd with hd | hd
    · exact absurd (hold hd (howner.symm.trans hcompany) hk') hnot
    · exact eq_of_mem_numbered (pairwise_unseen _ _ _) hc hd hk hk'

theorem call_unique {service : EnrichmentService} {course : Course} {p : Provider}
    {s : WaterfallState} (h : EmailsUnique U s.store.contacts) :
    EmailsUnique U (call U service course companyId p s).store.contacts := by
  unfold call settle
  split
  · exact h
  · exact h
  · exact h
  · exact h
  · split
    · exact h
    · rename_i hstored
      exact storeContacts_unique h hstored

theorem enrichCompany_unique {service : EnrichmentService} {course : Course} {turns : ℕ}
    {w : ContactWorld} (h : EmailsUnique U w.db.tables.contacts) :
    EmailsUnique U
      (w.enrichCompany U service course companyId turns).1.db.tables.contacts := by
  unfold ContactWorld.enrichCompany
  split
  · exact h
  · split
    · exact h
    · exact waterfallLoop_induction (P := fun s => EmailsUnique U s.store.contacts) h
        fun q _ s hs _ _ => call_unique hs

/-- A merge moves no email that the primary has, and none twice. -/
theorem mergeCompanies_emailsUnique {contactOrder : RowOrder Contact}
    {signalOrder : RowOrder SignalRow} {p d : ℕ} {db db' : Database}
    (h : EmailsUnique U db.tables.contacts)
    (hok : mergeCompanies U contactOrder signalOrder p d db = .ok db') :
    EmailsUnique U db'.tables.contacts := by
  rw [emailsUnique_iff] at h ⊢
  obtain ⟨hne, -, -, hrows⟩ := mergeCompanies_ok.mp hok
  have hmem {z : Contact} : z ∈ db'.tables.contacts ↔
      (z ∈ db.tables.contacts ∧ z.companyId ≠ d) ∨
        ∃ r ∈ movedContacts U contactOrder db.tables p d, z = { r with companyId := p } := by
    rw [mergeRows_tables hrows, mem_contacts_merged hne db.valid]
    exact Ownership.mem_absorb db.valid.unique.contacts (contactOrder_perm contactOrder _ _)
  -- an old contact of the primary and one that has been moved
  have hclash {z r : Contact} {k : List Char} (hz : z ∈ db.tables.contacts)
      (hzp : z.companyId = p) (hr : r ∈ movedContacts U contactOrder db.tables p d)
      (hk : Dedup.emailKey U z = some k) (hk' : Dedup.emailKey U r = some k) : False := by
    refine not_mem_seen hr hk' ?_
    exact List.mem_filterMap.mpr ⟨z, List.mem_filter.mpr ⟨hz, decide_eq_true hzp⟩, hk⟩
  intro x hx y hy hc k hk hk'
  rcases hmem.mp hx with ⟨hx, -⟩ | ⟨r, hr, rfl⟩
  · rcases hmem.mp hy with ⟨hy, -⟩ | ⟨r, hr, rfl⟩
    · exact h x hx y hy hc k hk hk'
    · exact (hclash hx hc hr hk hk').elim
  · rcases hmem.mp hy with ⟨hy, -⟩ | ⟨r', hr', rfl⟩
    · exact (hclash hy hc.symm hr hk' hk).elim
    · rw [eq_of_key hr hr' hk hk']

theorem step_emailsUnique {w w' : ContactWorld} {writer : ContactWriter}
    (h : EmailsUnique U w.db.tables.contacts) (hstep : writer.step U w = some w') :
    EmailsUnique U w'.db.tables.contacts := by
  cases writer with
  | enrichCompany service course companyId turns =>
    obtain rfl := Option.some.inj hstep
    exact enrichCompany_unique h
  | mergeCompanies contactOrder signalOrder p d =>
    unfold ContactWriter.step at hstep
    dsimp only at hstep
    split at hstep
    · obtain rfl := Option.some.inj hstep
      exact h
    · rename_i db hok
      obtain rfl := Option.some.inj hstep
      exact mergeCompanies_emailsUnique h hok

end

/-! ## Runs -/

/-- From contacts with different emails, no run of the two writers makes equal ones, whatever the
providers answer and wherever a waterfall stands. -/
theorem emailsUnique_run (U : Unicode) (w : ContactWorld) (writers : List ContactWriter)
    (h : EmailsUnique U w.db.tables.contacts) :
    Run.AllStates (ContactWriter.step U) (fun w => EmailsUnique U w.db.tables.contacts) w
      writers :=
  Run.AllStates.of_step (fun _ _ _ hs hstep => step_emailsUnique hs hstep) h writers

/-- Hunter finds one contact that is stored already and one that is not. -/
def twoFinds : Course := .prompt fun p _ =>
  if p = .hunter then
    .found [{ name := "Jan".toList, email := some "JAN@acme.nl".toList, source := "hunter",
              confidenceScore := 9 / 10 },
      { name := "Piet".toList, email := some "piet@acme.nl".toList, source := "hunter",
        confidenceScore := 9 / 10 }]
  else .found []

def twoCompaniesWorld : ContactWorld := ⟨twoCompanies, 3, by decide +kernel⟩

theorem emailsUnique_run_two :
    Run.AllStates (ContactWriter.step .ascii) (fun w => EmailsUnique .ascii w.db.tables.contacts)
      twoCompaniesWorld [.enrichCompany ⟨["CTO".toList], fun _ => true⟩ twoFinds 1 4,
        .mergeCompanies (.asStored _) (.asStored _) 1 2] :=
  emailsUnique_run .ascii _ _ (by
    have hcheck : ∀ c ∈ twoCompanies.tables.contacts, ∀ d ∈ twoCompanies.tables.contacts,
        c.companyId = d.companyId → c = d := by decide +kernel
    intro c hc d hd howner _ _ _ _ _ _ _
    exact hcheck c hc d hd howner)

end Enrichment
end LeadPulse
