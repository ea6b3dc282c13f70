import LeadPulse.Dedup.Conserves

/-!
# When a merge completes

A merge deletes a signal of the duplicate if its hash is taken already. The flush of the
deletion sets `signal_id` of the signal's audit logs to `NULL`, since the relationship has no
delete cascade, and the column is not nullable. This is the only constraint that a merge can
violate: `mergeCompanies_completes_iff`.
-/

namespace LeadPulse

namespace Tables

variable {t : Tables} {ids : List ℕ} {p d : ℕ}

/-! ## Statements that keep the constraints -/

theorem mem_ids_of_company {c : Company} (h : t.company p = some c) :
    p ∈ t.companies.map (·.id) := by
  rw [← Table.key_of_get h]
  exact List.mem_map_of_mem (Table.mem_of_get h)

theorem moveContacts_constraints (ids : List ℕ) (h : t.Constraints)
    (hp : p ∈ t.companies.map (·.id)) : (t.moveContacts ids p).Constraints where
  notNull := h.notNull
  foreignKeys :=
    { h.foreignKeys with
      contacts := by
        intro c hc
        obtain ⟨c', hc', rfl⟩ := List.mem_map.mp hc
        split
        · exact hp
        · exact h.foreignKeys.contacts c' hc' }
  unique :=
    { h.unique with
      contacts := h.unique.contacts.map fun c => by split <;> rfl }

theorem deleteContacts_constraints (ids : List ℕ) (h : t.Constraints) :
    (t.deleteContacts ids).Constraints where
  notNull := h.notNull
  foreignKeys :=
    { h.foreignKeys with
      contacts := fun c hc => h.foreignKeys.contacts c (List.mem_of_mem_filter hc) }
  unique :=
    { h.unique with
      contacts := h.unique.contacts.sublist (List.filter_sublist.map _) }

theorem moveSignals_constraints (ids : List ℕ) (h : t.Constraints)
    (hp : p ∈ t.companies.map (·.id)) : (t.moveSignals ids p).Constraints where
  notNull := h.notNull
  foreignKeys :=
    { h.foreignKeys with
      signals := by
        intro s hs
        obtain ⟨s', hs', rfl⟩ := List.mem_map.mp hs
        split
        · exact hp
        · exact h.foreignKeys.signals s' hs'
      auditLogs := by
        intro l hl k hk
        obtain ⟨s, hs, rfl⟩ := List.mem_map.mp (h.foreignKeys.auditLogs l hl k hk)
        refine List.mem_map.mpr ⟨_, List.mem_map_of_mem hs, ?_⟩
        split <;> rfl }
  unique :=
    { h.unique with
      signals := h.unique.signals.map fun s => by split <;> rfl }

/-- The audit logs of the deleted rows go with them. -/
theorem deleteSignals_constraints (ids : List ℕ) (h : t.Constraints) :
    (t.deleteSignals ids).Constraints where
  notNull := fun l hl => h.notNull l (List.mem_of_mem_filter hl)
  foreignKeys :=
    { h.foreignKeys with
      signals := fun s hs => h.foreignKeys.signals s (List.mem_of_mem_filter hs)
      auditLogs := by
        intro l hl k hk
        obtain ⟨hmem, hkept⟩ := List.mem_filter.mp hl
        obtain ⟨s, hs, rfl⟩ := List.mem_map.mp (h.foreignKeys.auditLogs l hmem k hk)
        have hnot : s.id ∉ ids := by
          rw [hk] at hkept
          simpa using hkept
        exact List.mem_map_of_mem (List.mem_filter.mpr ⟨hs, decide_eq_true hnot⟩) }
  unique :=
    { h.unique with
      signals := h.unique.signals.sublist (List.filter_sublist.map _)
      auditLogs := h.unique.auditLogs.sublist (List.filter_sublist.map _) }

theorem moveScrapeJobs_constraints (d : ℕ) (h : t.Constraints) (hp : p ∈ t.companies.map (·.id)) :
    (t.moveScrapeJobs d p).Constraints where
  notNull := h.notNull
  foreignKeys :=
    { h.foreignKeys with
      scrapeJobs := by
        intro j hj
        obtain ⟨j', hj', rfl⟩ := List.mem_map.mp hj
        split
        · exact hp
        · exact h.foreignKeys.scrapeJobs j' hj' }
  unique :=
    { h.unique with
      scrapeJobs := h.unique.scrapeJobs.map fun j => by split <;> rfl }

/-- A reference to another company outlives the deletion of `d`. -/
theorem mem_ids_remove {k : ℕ} (hk : k ∈ t.companies.map (·.id)) (hd : k ≠ d) :
    k ∈ (Table.remove (·.id) t.companies d).map (·.id) := by
  obtain ⟨c, hc, rfl⟩ := List.mem_map.mp hk
  exact List.mem_map_of_mem (List.mem_filter.mpr ⟨hc, decide_eq_true hd⟩)

theorem deleteCompany_constraints (d : ℕ) (h : t.Constraints) :
    (t.deleteCompany d).Constraints := by
  have hs := deleteSignals_constraints ((t.signals.filter fun s => s.companyId = d).map (·.id)) h
  have hkept {α : Type} {rows : List α} {owner : α → ℕ} {r : α}
      (hr : r ∈ rows.filter fun r => owner r ≠ d) : r ∈ rows ∧ owner r ≠ d := by
    obtain ⟨hmem, hne⟩ := List.mem_filter.mp hr
    exact ⟨hmem, of_decide_eq_true hne⟩
  refine ⟨hs.notNull, ?_, ?_⟩
  · constructor
    · exact fun i hi => mem_ids_remove (h.foreignKeys.integrations i (hkept hi).1) (hkept hi).2
    · exact fun c hc => mem_ids_remove (h.foreignKeys.contacts c (hkept hc).1) (hkept hc).2
    · intro s hsig
      obtain ⟨hmem, hnot⟩ := List.mem_filter.mp hsig
      refine mem_ids_remove (h.foreignKeys.signals s hmem) fun hd => ?_
      -- the rows of `d` are among the deleted ones
      refine of_decide_eq_true hnot (List.mem_map_of_mem ?_)
      exact List.mem_filter.mpr ⟨hmem, decide_eq_true hd⟩
    · exact fun j hj => mem_ids_remove (h.foreignKeys.scrapeJobs j (hkept hj).1) (hkept hj).2
    · exact fun j hj => mem_ids_remove (h.foreignKeys.enrichmentJobs j (hkept hj).1) (hkept hj).2
    · exact hs.foreignKeys.auditLogs
  · exact
      { companies := h.unique.companies.remove
        nameDomain := h.unique.nameDomain.sublist (List.filter_sublist.map _)
        integrations := h.unique.integrations.sublist (List.filter_sublist.map _)
        contacts := h.unique.contacts.sublist (List.filter_sublist.map _)
        signals := hs.unique.signals
        scrapeJobs := h.unique.scrapeJobs.sublist (List.filter_sublist.map _)
        enrichmentJobs := h.unique.enrichmentJobs.sublist (List.filter_sublist.map _)
        auditLogs := hs.unique.auditLogs }

/-! ## The statement that may not -/

theorem orphanAuditLogs_eq_self (h : ∀ l ∈ t.auditLogs, ∀ k ∈ ids, l.signalId ≠ some k) :
    t.orphanAuditLogs ids = t := by
  have hmap : (t.auditLogs.map fun l =>
      if l.signalId.any (· ∈ ids) then { l with signalId := none } else l) = t.auditLogs := by
    refine (List.map_congr_left fun l hl => ?_).trans (List.map_id _)
    rw [if_neg]
    · rfl
    · intro hany
      obtain ⟨k, hk, hmem⟩ := (Option.any_eq_true _ _).mp hany
      exact h l hl k (of_decide_eq_true hmem) hk
  unfold orphanAuditLogs
  rw [hmap]

/-- An audit log of a deleted signal is left without a signal. -/
theorem orphanAuditLogs_not_notNull {l : AuditLogRow} {k : ℕ} (hl : l ∈ t.auditLogs)
    (hk : l.signalId = some k) (hmem : k ∈ ids) : ¬ (t.orphanAuditLogs ids).NotNull := by
  intro h
  have hany : l.signalId.any (· ∈ ids) := by
    rw [hk]
    simpa using hmem
  have hnew := h _ (List.mem_map_of_mem hl)
  rw [if_pos hany] at hnew
  exact hnew rfl

end Tables

namespace Dedup

open Unseen

variable {U : Unicode} {contactOrder : RowOrder Contact} {signalOrder : RowOrder SignalRow}
  {t : Tables} {db : Database} {p d : ℕ} {s : SignalRow}

/-! ## The property and its condition -/

/-- The hash of `s`, a signal of the duplicate `d`, is on the primary, or on an earlier signal
of the duplicate in the order in which they are loaded. -/
def HashTaken (signalOrder : RowOrder SignalRow) (t : Tables) (p d : ℕ) (s : SignalRow) : Prop :=
  ∃ h, s.rawContentHash = some h ∧ h ≠ "" ∧
    ((∃ s' ∈ signalsOf t p, s'.rawContentHash = some h) ∨
      ∃ l₁ l₂, signalOrder.arrange (signalsOf t d) = l₁ ++ s :: l₂ ∧
        ∃ s' ∈ l₁, s'.rawContentHash = some h)

/-- No signal of the duplicate whose hash is taken has an audit log. -/
def RepeatsUnlogged (signalOrder : RowOrder SignalRow) (t : Tables) (p d : ℕ) : Prop :=
  ∀ s ∈ signalsOf t d, HashTaken signalOrder t p d s → ∀ l ∈ t.auditLogs, l.signalId ≠ some s.id

theorem mem_droppedSignals : s ∈ droppedSignals signalOrder t p d ↔
    s ∈ signalsOf t d ∧ HashTaken signalOrder t p d s := by
  unfold droppedSignals
  constructor
  · intro h
    refine ⟨(signalOrder.mem_arrange).mp (mem_of_mem_repeated h), ?_⟩
    obtain ⟨k, l₁, l₂, hrows, hk, hor⟩ := mem_repeated_iff.mp h
    obtain ⟨hash, hne⟩ := hashKey_eq_some.mp hk
    refine ⟨k, hash, hne, ?_⟩
    rcases hor with hseen | ⟨s', hs', hk'⟩
    · exact Or.inl (List.mem_filterMap.mp hseen)
    · exact Or.inr ⟨l₁, l₂, hrows, s', hs', (hashKey_eq_some.mp hk').1⟩
  · rintro ⟨hmem, h, hash, hne, hor⟩
    have hk : hashKey s = some h := hashKey_eq_some.mpr ⟨hash, hne⟩
    rw [mem_repeated_iff]
    rcases hor with ⟨s', hs', hash'⟩ | ⟨l₁, l₂, hrows, s', hs', hash'⟩
    · obtain ⟨l₁, l₂, hrows⟩ := List.append_of_mem ((signalOrder.mem_arrange).mpr hmem)
      exact ⟨h, l₁, l₂, hrows, hk, Or.inl (List.mem_filterMap.mpr ⟨s', hs', hash'⟩)⟩
    · exact ⟨h, l₁, l₂, hrows, hk, Or.inr ⟨s', hs', hashKey_eq_some.mpr ⟨hash', hne⟩⟩⟩

/-! ## The transaction -/

theorem mergeRows_completes (hp : p ∈ db.tables.companies.map (·.id))
    (h : RepeatsUnlogged signalOrder db.tables p d) :
    ∃ db', mergeRows U contactOrder signalOrder p d db = .ok db' := by
  have h₁ := Tables.moveContacts_constraints
    ((movedContacts U contactOrder db.tables p d).map (·.id)) db.valid hp
  have h₂ : (mergeContacts U contactOrder db.tables p d).Constraints :=
    Tables.deleteContacts_constraints _ h₁
  have h₃ : ((mergeContacts U contactOrder db.tables p d).orphanAuditLogs ((droppedSignals
      signalOrder (mergeContacts U contactOrder db.tables p d) p d).map (·.id))).Constraints := by
    -- the loop on the contacts has left the signals and their audit logs alone
    rw [Tables.orphanAuditLogs_eq_self]
    · exact h₂
    · intro l hl k hk
      obtain ⟨s, hs, rfl⟩ := List.mem_map.mp hk
      obtain ⟨hmem, htaken⟩ := mem_droppedSignals.mp hs
      exact h s hmem htaken l hl
  have h₄ := Tables.moveSignals_constraints ((movedSignals signalOrder
    (mergeContacts U contactOrder db.tables p d) p d).map (·.id)) h₃ hp
  have h₅ := Tables.deleteSignals_constraints ((droppedSignals signalOrder
    (mergeContacts U contactOrder db.tables p d) p d).map (·.id)) h₄
  have h₆ := Tables.moveScrapeJobs_constraints d h₅ hp
  have h₇ := Tables.deleteCompany_constraints d h₆
  exact ⟨⟨_, h₇⟩, mergeRows_ok.mpr ⟨h₁, h₂, h₃, h₄, h₅, h₆, h₇, rfl⟩⟩

/-- A merge that completes has set no `signal_id` to `NULL`. -/
theorem repeatsUnlogged_of_mergeRows {db' : Database}
    (h : mergeRows U contactOrder signalOrder p d db = .ok db') :
    RepeatsUnlogged signalOrder db.tables p d := by
  obtain ⟨-, -, h₃, -⟩ := mergeRows_ok.mp h
  intro s hs htaken l hl hlog
  refine Tables.orphanAuditLogs_not_notNull hl hlog ?_ h₃.notNull
  exact List.mem_map_of_mem (mem_droppedSignals.mpr ⟨hs, htaken⟩)

/-- A merge of two different existing companies completes exactly if no signal that it
deletes has an audit log. -/
theorem mergeCompanies_completes_iff (hne : p ≠ d) (hp : ∃ c, db.tables.company p = some c)
    (hd : ∃ c, db.tables.company d = some c) :
    (∃ db', mergeCompanies U contactOrder signalOrder p d db = .ok db') ↔
      RepeatsUnlogged signalOrder db.tables p d := by
  constructor
  · rintro ⟨db', h⟩
    exact repeatsUnlogged_of_mergeRows (mergeCompanies_ok.mp h).2.2.2
  · intro h
    obtain ⟨c, hc⟩ := hp
    obtain ⟨db', hrows⟩ := mergeRows_completes (Tables.mem_ids_of_company hc) h
    exact ⟨db', mergeCompanies_ok.mpr ⟨hne, ⟨c, hc⟩, hd, hrows⟩⟩

theorem mergeCompanies_completes_two :
    RepeatsUnlogged (.asStored _) twoCompanies.tables 1 2 :=
  (mergeCompanies_completes_iff (by decide) ⟨_, rfl⟩ ⟨_, rfl⟩).mp ⟨_, mergeCompanies_two⟩

/-- The same two companies, when both signals are the same post. The second one has been
dispatched: it has an audit log. -/
def samePost : Database where
  tables :=
    { twoCompanies.tables with
      signals := twoCompanies.tables.signals.map fun s => { s with rawContentHash := some "a" } }
  valid := by decide +kernel

theorem samePost_not_completes : ¬ ∀ (U : Unicode) (contactOrder : RowOrder Contact)
    (signalOrder : RowOrder SignalRow) (db : Database) (p d : ℕ), p ≠ d →
    (∃ c, db.tables.company p = some c) → (∃ c, db.tables.company d = some c) →
    ∃ db', mergeCompanies U contactOrder signalOrder p d db = .ok db' := by
  intro h
  obtain ⟨db', hok⟩ := h .ascii (.asStored _) (.asStored _) samePost 1 2 (by decide)
    ⟨_, rfl⟩ ⟨_, rfl⟩
  have herror : mergeCompanies .ascii (.asStored _) (.asStored _) 1 2 samePost =
      .error (.integrityError .notNull) := by
    decide +kernel
  rw [herror] at hok
  cases hok

end Dedup
end LeadPulse
