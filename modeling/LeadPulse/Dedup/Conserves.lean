import LeadPulse.Dedup.Merge
import LeadPulse.Lib.Absorb

/-!
# A merge loses nothing

What `merge_companies` leaves of the rows of the two companies and of all others. Both loops
absorb rows in the sense of `Lib/Absorb`, and the deletion of the duplicate finds none of them
left to cascade to.
-/

namespace LeadPulse
namespace Dedup

open Unseen

def contactOwnership : Ownership Contact where
  id := (·.id)
  owner := (·.companyId)
  give p c := { c with companyId := p }
  id_give _ _ := rfl
  owner_give _ _ := rfl
  give_owner _ := rfl

def signalOwnership : Ownership SignalRow where
  id := (·.id)
  owner := (·.companyId)
  give p s := { s with companyId := p }
  id_give _ _ := rfl
  owner_give _ _ := rfl
  give_owner _ := rfl

/-- What is left of a company that the merge is not about. -/
structure SameRows (t t' : Tables) (k : ℕ) : Prop where
  company : t'.company k = t.company k
  integrations : ∀ i : CRMIntegration, i.companyId = k →
    (i ∈ t'.integrations ↔ i ∈ t.integrations)
  contacts : ∀ c : Contact, c.companyId = k → (c ∈ t'.contacts ↔ c ∈ t.contacts)
  signals : ∀ s : SignalRow, s.companyId = k → (s ∈ t'.signals ↔ s ∈ t.signals)
  scrapeJobs : ∀ j : ScrapeJob, j.companyId = k → (j ∈ t'.scrapeJobs ↔ j ∈ t.scrapeJobs)
  enrichmentJobs : ∀ j : EnrichmentJobRow, j.companyId = k →
    (j ∈ t'.enrichmentJobs ↔ j ∈ t.enrichmentJobs)
  auditLogs : ∀ l : AuditLogRow, (∃ s ∈ t.signals, s.companyId = k ∧ l.signalId = some s.id) →
    (l ∈ t'.auditLogs ↔ l ∈ t.auditLogs)

/-- The rows of the companies `p` and `d` are all with `p`, or another row stands for them. -/
structure Conserves (U : Unicode) (p d : ℕ) (t t' : Tables) : Prop where
  contacts : ∀ c ∈ t.contacts, c.companyId = p ∨ c.companyId = d →
    { c with companyId := p } ∈ t'.contacts ∨
      ((∀ c' ∈ t'.contacts, c'.id ≠ c.id) ∧ ∃ c' ∈ t'.contacts, c'.companyId = p ∧
        ∃ e e', c.email = some e ∧ c'.email = some e' ∧ U.lower e' = U.lower e)
  signals : ∀ s ∈ t.signals, s.companyId = p ∨ s.companyId = d →
    { s with companyId := p } ∈ t'.signals ∨
      (s.rawContentHash ≠ none ∧ (∀ s' ∈ t'.signals, s'.id ≠ s.id) ∧
        ∃ s' ∈ t'.signals, s'.companyId = p ∧ s'.rawContentHash = s.rawContentHash)
  scrapeJobs : ∀ j ∈ t.scrapeJobs, j.companyId = p ∨ j.companyId = d →
    { j with companyId := p } ∈ t'.scrapeJobs
  duplicate : t'.company d = none
  primary : t'.company p = t.company p
  others : ∀ k, k ≠ p → k ≠ d → SameRows t t' k

/-! ## Keys -/

theorem emailKey_eq_some {U : Unicode} {c : Contact} {k : List Char}
    (h : emailKey U c = some k) : ∃ e, c.email = some e ∧ U.lower e = k := by
  unfold emailKey at h
  split at h
  · cases h
  · next e he =>
    split_ifs at h
    exact ⟨e, he, Option.some.inj h⟩

theorem hashKey_eq_some {s : SignalRow} {h : String} :
    hashKey s = some h ↔ s.rawContentHash = some h ∧ h ≠ "" := by
  unfold hashKey
  cases s.rawContentHash with
  | none => simp
  | some x =>
    by_cases hx : x = ""
    · simp only [hx, if_true, Option.some.injEq, reduceCtorEq, false_iff, not_and, not_not]
      exact fun h => h.symm
    · simp only [hx, if_false, Option.some.injEq, iff_self_and]
      intro he
      rw [← he]
      exact hx

/-! ## The tables of a merge -/

section

variable {U : Unicode} {contactOrder : RowOrder Contact} {signalOrder : RowOrder SignalRow}
  {t : Tables} {p d : ℕ}

theorem contacts_mergeContacts : (mergeContacts U contactOrder t p d).contacts =
    contactOwnership.absorb (emailKey U) (existingEmails U t p)
      (contactOrder.arrange (contactsOf t d)) t.contacts p := rfl

theorem contactOrder_perm (order : RowOrder Contact) (t : Tables) (d : ℕ) :
    (order.arrange (contactsOf t d)).Perm
      (t.contacts.filter fun c => contactOwnership.owner c = d) := order.perm _

theorem signalOrder_perm (order : RowOrder SignalRow) (t : Tables) (d : ℕ) :
    (order.arrange (signalsOf t d)).Perm
      (t.signals.filter fun s => signalOwnership.owner s = d) := order.perm _

/-- Deleting a company that no signal refers to leaves the signals alone. -/
theorem deleteCompany_signals (h : ∀ s ∈ t.signals, s.companyId ≠ d) :
    (t.deleteCompany d).signals = t.signals ∧ (t.deleteCompany d).auditLogs = t.auditLogs := by
  have hnone : t.signals.filter (fun s => s.companyId = d) = [] := by
    rw [List.filter_eq_nil_iff]
    intro s hs
    simpa using h s hs
  unfold Tables.deleteCompany Tables.deleteSignals
  rw [hnone]
  constructor
  · show t.signals.filter _ = t.signals
    rw [List.filter_eq_self]
    simp
  · show t.auditLogs.filter _ = t.auditLogs
    rw [List.filter_eq_self]
    intro l _
    cases l.signalId <;> simp

theorem existingEmails_spec {r : Contact} {k : List Char} (_ : emailKey U r = some k)
    (h : k ∈ existingEmails U t p) :
    ∃ c ∈ t.contacts, contactOwnership.owner c = p ∧ emailKey U c = some k := by
  obtain ⟨c, hc, hk⟩ := List.mem_filterMap.mp h
  obtain ⟨hmem, howner⟩ := List.mem_filter.mp hc
  exact ⟨c, hmem, of_decide_eq_true howner, hk⟩

theorem existingHashes_spec {r : SignalRow} {k : String} (hr : hashKey r = some k)
    (h : k ∈ existingHashes t p) :
    ∃ s ∈ t.signals, signalOwnership.owner s = p ∧ hashKey s = some k := by
  obtain ⟨s, hs, hk⟩ := List.mem_filterMap.mp h
  obtain ⟨hmem, howner⟩ := List.mem_filter.mp hs
  exact ⟨s, hmem, of_decide_eq_true howner, hashKey_eq_some.mpr ⟨hk, (hashKey_eq_some.mp hr).2⟩⟩

variable (hne : p ≠ d) (hc : t.Constraints)

include hne hc

theorem mem_contacts_merged {c : Contact} :
    c ∈ (merged U contactOrder signalOrder t p d).contacts ↔
      c ∈ contactOwnership.absorb (emailKey U) (existingEmails U t p)
        (contactOrder.arrange (contactsOf t d)) t.contacts p := by
  show c ∈ List.filter _ (mergeContacts U contactOrder t p d).contacts ↔ _
  rw [contacts_mergeContacts, List.mem_filter, and_iff_left_iff_imp]
  intro h
  have howner : c.companyId ≠ d := Ownership.owner_ne_of_mem_absorb hc.unique.contacts
    (contactOrder_perm contactOrder t d) hne h
  simpa using howner

/-- The second loop runs on the signals as they were. -/
theorem signals_before : ∀ s ∈ (mergeSignals signalOrder
    (mergeContacts U contactOrder t p d) p d).signals, s.companyId ≠ d := by
  intro s hs
  exact Ownership.owner_ne_of_mem_absorb hc.unique.signals
    (signalOrder_perm signalOrder (mergeContacts U contactOrder t p d) d) hne hs

theorem signals_merged : (merged U contactOrder signalOrder t p d).signals =
    signalOwnership.absorb hashKey (existingHashes t p)
      (signalOrder.arrange (signalsOf t d)) t.signals p :=
  (deleteCompany_signals (signals_before hne hc)).1

theorem auditLogs_merged : (merged U contactOrder signalOrder t p d).auditLogs =
    (mergeSignals signalOrder (mergeContacts U contactOrder t p d) p d).auditLogs :=
  (deleteCompany_signals (signals_before hne hc)).2

/-- An audit log survives unless its signal was dropped. -/
theorem mem_auditLogs_merged {l : AuditLogRow} {k : ℕ} (hk : l.signalId = some k)
    (hkept : k ∉ (droppedSignals signalOrder t p d).map (·.id)) :
    l ∈ (merged U contactOrder signalOrder t p d).auditLogs ↔ l ∈ t.auditLogs := by
  rw [auditLogs_merged hne hc]
  show l ∈ List.filter _ (List.map _ t.auditLogs) ↔ _
  rw [List.mem_filter, List.mem_map]
  constructor
  · rintro ⟨⟨l', hl', rfl⟩, -⟩
    split at hk
    · cases hk
    · next h =>
      rw [if_neg h]
      exact hl'
  · intro hl
    have hany : ¬ l.signalId.any (· ∈ (droppedSignals signalOrder t p d).map (·.id)) := by
      rw [hk]
      simpa using hkept
    refine ⟨⟨l, hl, if_neg hany⟩, ?_⟩
    exact decide_eq_true hany

/-- The other companies. -/
theorem sameRows_merged {k : ℕ} (hp : k ≠ p) (hd : k ≠ d) :
    SameRows t (merged U contactOrder signalOrder t p d) k where
  company := by
    show Table.get (·.id) (Table.remove (·.id) t.companies d) k = Table.get (·.id) t.companies k
    rw [Table.get_remove, if_neg hd]
  integrations i hi := by
    show i ∈ List.filter _ t.integrations ↔ _
    rw [List.mem_filter, and_iff_left_iff_imp]
    intro _
    rw [hi]
    exact decide_eq_true hd
  contacts c hk := by
    rw [mem_contacts_merged hne hc, Ownership.mem_absorb_of_other hc.unique.contacts
      (contactOrder_perm contactOrder t d)]
    · show c.companyId ≠ p
      rw [hk]
      exact hp
    · show c.companyId ≠ d
      rw [hk]
      exact hd
  signals s hk := by
    rw [signals_merged hne hc, Ownership.mem_absorb_of_other hc.unique.signals
      (signalOrder_perm signalOrder t d)]
    · show s.companyId ≠ p
      rw [hk]
      exact hp
    · show s.companyId ≠ d
      rw [hk]
      exact hd
  scrapeJobs j hj := by
    show j ∈ List.filter _ (List.map _ t.scrapeJobs) ↔ _
    rw [List.mem_filter, List.mem_map]
    constructor
    · rintro ⟨⟨j', hj', rfl⟩, -⟩
      split at hj
      · exact absurd hj.symm hp
      · next h =>
        rw [if_neg h]
        exact hj'
    · intro hmem
      have hjd : j.companyId ≠ d := hj ▸ hd
      exact ⟨⟨j, hmem, if_neg hjd⟩, decide_eq_true hjd⟩
  enrichmentJobs j hj := by
    show j ∈ List.filter _ t.enrichmentJobs ↔ _
    rw [List.mem_filter, and_iff_left_iff_imp]
    intro _
    rw [hj]
    exact decide_eq_true hd
  auditLogs := by
    rintro l ⟨s, hs, hk, hl⟩
    refine mem_auditLogs_merged hne hc hl fun hmem => ?_
    -- a dropped signal belongs to the duplicate
    have hrep := (Ownership.id_mem_repeated hc.unique.signals (signalOrder_perm signalOrder t d)
      hs).mp hmem
    have howner := ((Ownership.mem_order (signalOrder_perm signalOrder t d)).mp
      (mem_of_mem_repeated hrep)).2
    exact hd (hk.symm.trans howner)

theorem conserves_merged : Conserves U p d t (merged U contactOrder signalOrder t p d) where
  contacts c hmem howner := by
    simp only [mem_contacts_merged hne hc]
    rcases Ownership.absorb_conserves hc.unique.contacts (contactOrder_perm contactOrder t d)
      (emailKey U) hne (fun _ => rfl) (fun r k hr h => existingEmails_spec hr h) hmem howner
      with h | ⟨hgone, c', hc', hp, k, hk, hk'⟩
    · exact Or.inl h
    · obtain ⟨e, he, hek⟩ := emailKey_eq_some hk
      obtain ⟨e', he', hek'⟩ := emailKey_eq_some hk'
      exact Or.inr ⟨hgone, c', hc', hp, e, e', he, he', hek'.trans hek.symm⟩
  signals s hmem howner := by
    rw [signals_merged hne hc]
    rcases Ownership.absorb_conserves hc.unique.signals (signalOrder_perm signalOrder t d)
      hashKey hne (fun _ => rfl) (fun r k hr h => existingHashes_spec hr h) hmem howner
      with h | ⟨hgone, s', hs', hp, k, hk, hk'⟩
    · exact Or.inl h
    · have hsome := (hashKey_eq_some.mp hk).1
      refine Or.inr ⟨?_, hgone, s', hs', hp, (hashKey_eq_some.mp hk').1.trans hsome.symm⟩
      rw [hsome]
      exact Option.some_ne_none k
  scrapeJobs j hj howner := by
    show _ ∈ List.filter _ (List.map _ t.scrapeJobs)
    rw [List.mem_filter, List.mem_map]
    refine ⟨⟨j, hj, ?_⟩, decide_eq_true hne⟩
    by_cases hd : j.companyId = d
    · rw [if_pos hd]
    · rw [if_neg hd]
      obtain rfl : j.companyId = p := howner.resolve_right hd
      rfl
  duplicate := by
    show Table.get (·.id) (Table.remove (·.id) t.companies d) d = none
    rw [Table.get_remove, if_pos rfl]
  primary := by
    show Table.get (·.id) (Table.remove (·.id) t.companies d) p = Table.get (·.id) t.companies p
    rw [Table.get_remove, if_neg hne]
  others _ hp hd := sameRows_merged hne hc hp hd

end

/-! ## A merge that returns -/

theorem mergeCompanies_conserves {U : Unicode} {contactOrder : RowOrder Contact}
    {signalOrder : RowOrder SignalRow} {primaryId duplicateId : ℕ} {db db' : Database}
    (h : mergeCompanies U contactOrder signalOrder primaryId duplicateId db = .ok db') :
    Conserves U primaryId duplicateId db.tables db'.tables := by
  obtain ⟨hne, -, -, hrows⟩ := mergeCompanies_ok.mp h
  rw [mergeRows_tables hrows]
  exact conserves_merged hne db.valid

/-- Two companies with a contact each of the same email, and a signal each. -/
def twoCompanies : Database where
  tables :=
    { companies := [{ id := 1, name := "Acme".toList, domain := "acme.nl".toList },
        { id := 2, name := "ACME BV".toList, domain := "acme.nl".toList }]
      integrations := []
      contacts := [{ id := 1, companyId := 1, name := "Jan".toList,
                     email := some "jan@acme.nl".toList },
        { id := 2, companyId := 2, name := "Jan".toList, email := some "Jan@acme.nl".toList }]
      signals := [{ id := 1, companyId := 1, signalType := .other, rawContentHash := some "a",
                    createdAt := 0 },
        { id := 2, companyId := 2, signalType := .other, rawContentHash := some "b",
          createdAt := 0 }]
      scrapeJobs := [{ id := 1, companyId := 2 }]
      enrichmentJobs := []
      auditLogs := [{ id := 1, signalId := some 2 }] }
  valid := by decide +kernel

/-- The second contact is gone, the signal and the scrape job have moved. -/
def twoCompaniesMerged : Database where
  tables :=
    { twoCompanies.tables with
      companies := twoCompanies.tables.companies.take 1
      contacts := twoCompanies.tables.contacts.take 1
      signals := twoCompanies.tables.signals.map fun s => { s with companyId := 1 }
      scrapeJobs := [{ id := 1, companyId := 1 }] }
  valid := by decide +kernel

theorem mergeCompanies_two : mergeCompanies .ascii (.asStored _) (.asStored _) 1 2 twoCompanies =
    .ok twoCompaniesMerged := by
  decide +kernel

theorem mergeCompanies_conserves_two :
    Conserves .ascii 1 2 twoCompanies.tables twoCompaniesMerged.tables :=
  mergeCompanies_conserves mergeCompanies_two

end Dedup
end LeadPulse
