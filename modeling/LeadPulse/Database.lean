import LeadPulse.Pipeline.Background

/-!
# The database

The tables around a company with the constraints of `models/`. `Tables` are rows as a
statement leaves them; a `Database` is a set of tables that meets the constraints, which the
database checks after every statement (`Tables.check`). The foreign keys carry
`ondelete="CASCADE"`.
-/

namespace LeadPulse

/-! ## Rows -/

structure Contact where
  id : ℕ
  companyId : ℕ
  name : List Char
  title : Option (List Char) := none
  email : Option (List Char) := none
  phone : Option (List Char) := none
  linkedinUrl : Option (List Char) := none
  clickupTaskId : Option String := none
  clickupTaskUrl : Option String := none
deriving DecidableEq, Repr

/-- A row of `signals`, with the time at which it went to the CRM as a comment. -/
structure SignalRow extends Signal where
  crmCommentedAt : Option Time := none
deriving DecidableEq, Repr

structure ScrapeJob where
  id : ℕ
  companyId : ℕ
deriving DecidableEq, Repr

structure EnrichmentJobRow extends EnrichmentJob where
  id : ℕ
deriving DecidableEq, Repr

/-- A row of `audit_logs` as a statement may leave it, with `none` for `NULL`. -/
structure AuditLogRow where
  id : ℕ
  signalId : Option ℕ
deriving DecidableEq, Repr

/-- The order in which a query without `ORDER BY` returns its rows. -/
structure RowOrder (α : Type) where
  arrange : List α → List α
  perm : ∀ rows, (arrange rows).Perm rows

/-- The rows in the order of the table. -/
def RowOrder.asStored (α : Type) : RowOrder α := ⟨id, List.Perm.refl⟩

theorem RowOrder.mem_arrange {α : Type} (order : RowOrder α) {r : α} {rows : List α} :
    r ∈ order.arrange rows ↔ r ∈ rows :=
  (order.perm rows).mem_iff

/-! ## Tables -/

structure Tables extends LeadTables where
  contacts : List Contact
  signals : List SignalRow
  scrapeJobs : List ScrapeJob
  enrichmentJobs : List EnrichmentJobRow
  auditLogs : List AuditLogRow
deriving DecidableEq, Repr

/-- A constraint that a statement would violate. -/
inductive Violation where
  | notNull
  | foreignKey
  | unique
deriving DecidableEq, Repr

namespace Tables

/-- `audit_logs.signal_id` is the one nullable foreign key of the model classes' children that
a flush can set to `NULL`. -/
def NotNull (t : Tables) : Prop := ∀ l ∈ t.auditLogs, l.signalId ≠ none

structure ForeignKeys (t : Tables) : Prop where
  integrations : ∀ i ∈ t.integrations, i.companyId ∈ t.companies.map (·.id)
  contacts : ∀ c ∈ t.contacts, c.companyId ∈ t.companies.map (·.id)
  signals : ∀ s ∈ t.signals, s.companyId ∈ t.companies.map (·.id)
  scrapeJobs : ∀ j ∈ t.scrapeJobs, j.companyId ∈ t.companies.map (·.id)
  enrichmentJobs : ∀ j ∈ t.enrichmentJobs, j.companyId ∈ t.companies.map (·.id)
  auditLogs : ∀ l ∈ t.auditLogs, ∀ k, l.signalId = some k → k ∈ t.signals.map (·.id)

/-- The primary keys, `uq_companies_name_domain` and the unique `crm_integrations.company_id`. -/
structure Unique (t : Tables) : Prop where
  companies : Table.Keyed (·.id) t.companies
  nameDomain : (t.companies.map fun c => (c.name, c.domain)).Nodup
  integrations : Table.Keyed (·.companyId) t.integrations
  contacts : Table.Keyed (·.id) t.contacts
  signals : Table.Keyed (·.id) t.signals
  scrapeJobs : Table.Keyed (·.id) t.scrapeJobs
  enrichmentJobs : Table.Keyed (·.id) t.enrichmentJobs
  auditLogs : Table.Keyed (·.id) t.auditLogs

structure Constraints (t : Tables) : Prop where
  notNull : t.NotNull
  foreignKeys : t.ForeignKeys
  unique : t.Unique

instance (t : Tables) : Decidable t.NotNull :=
  inferInstanceAs (Decidable (∀ l ∈ t.auditLogs, l.signalId ≠ none))

/-- A reference to an audit log's signal, as a test. -/
theorem auditLogs_iff (t : Tables) :
    (∀ l ∈ t.auditLogs, ∀ k, l.signalId = some k → k ∈ t.signals.map (·.id)) ↔
      ∀ l ∈ t.auditLogs, ∀ k ∈ l.signalId.toList, k ∈ t.signals.map (·.id) := by
  simp only [Option.mem_toList]

instance (t : Tables) : Decidable t.ForeignKeys :=
  decidable_of_iff
    ((∀ i ∈ t.integrations, i.companyId ∈ t.companies.map (·.id)) ∧
      (∀ c ∈ t.contacts, c.companyId ∈ t.companies.map (·.id)) ∧
      (∀ s ∈ t.signals, s.companyId ∈ t.companies.map (·.id)) ∧
      (∀ j ∈ t.scrapeJobs, j.companyId ∈ t.companies.map (·.id)) ∧
      (∀ j ∈ t.enrichmentJobs, j.companyId ∈ t.companies.map (·.id)) ∧
      (∀ l ∈ t.auditLogs, ∀ k ∈ l.signalId.toList, k ∈ t.signals.map (·.id)))
    ⟨fun ⟨h₁, h₂, h₃, h₄, h₅, h₆⟩ => ⟨h₁, h₂, h₃, h₄, h₅, t.auditLogs_iff.mpr h₆⟩,
      fun h => ⟨h.1, h.2, h.3, h.4, h.5, t.auditLogs_iff.mp h.6⟩⟩

instance {α : Type} (key : α → ℕ) (rows : List α) : Decidable (Table.Keyed key rows) :=
  inferInstanceAs (Decidable (rows.map key).Nodup)

instance (t : Tables) : Decidable t.Unique :=
  decidable_of_iff
    (Table.Keyed (·.id) t.companies ∧ (t.companies.map fun c => (c.name, c.domain)).Nodup ∧
      Table.Keyed (·.companyId) t.integrations ∧ Table.Keyed (·.id) t.contacts ∧
      Table.Keyed (·.id) t.signals ∧ Table.Keyed (·.id) t.scrapeJobs ∧
      Table.Keyed (·.id) t.enrichmentJobs ∧ Table.Keyed (·.id) t.auditLogs)
    ⟨fun ⟨h₁, h₂, h₃, h₄, h₅, h₆, h₇, h₈⟩ => ⟨h₁, h₂, h₃, h₄, h₅, h₆, h₇, h₈⟩,
      fun h => ⟨h.1, h.2, h.3, h.4, h.5, h.6, h.7, h.8⟩⟩

instance (t : Tables) : Decidable t.Constraints :=
  decidable_of_iff (t.NotNull ∧ t.ForeignKeys ∧ t.Unique)
    ⟨fun ⟨h₁, h₂, h₃⟩ => ⟨h₁, h₂, h₃⟩, fun h => ⟨h.1, h.2, h.3⟩⟩

end Tables

/-- Tables that meet the constraints. -/
structure Database where
  tables : Tables
  valid : tables.Constraints
deriving DecidableEq

/-- What the database does with the tables that a statement leaves. -/
def Tables.check (t : Tables) : Except Violation Database :=
  if h : t.Constraints then .ok ⟨t, h⟩
  else if ¬ t.NotNull then .error .notNull
  else if ¬ t.ForeignKeys then .error .foreignKey
  else .error .unique

namespace Tables

theorem check_of_constraints {t : Tables} (h : t.Constraints) : t.check = .ok ⟨t, h⟩ := by
  unfold check
  rw [dif_pos h]

/-- A statement that goes through leaves the tables it has made. -/
theorem check_ok {t : Tables} {db : Database} (h : t.check = .ok db) : db.tables = t := by
  unfold check at h
  split_ifs at h with hc
  cases h
  rfl

/-! ## Statements -/

def addSignals (t : Tables) (rows : List SignalRow) : Tables :=
  { t with signals := t.signals ++ rows }

/-- `UPDATE contacts SET company_id`, for the rows with the given ids. -/
def moveContacts (t : Tables) (ids : List ℕ) (companyId : ℕ) : Tables :=
  { t with contacts := t.contacts.map fun c =>
      if c.id ∈ ids then { c with companyId := companyId } else c }

def deleteContacts (t : Tables) (ids : List ℕ) : Tables :=
  { t with contacts := t.contacts.filter fun c => c.id ∉ ids }

def moveSignals (t : Tables) (ids : List ℕ) (companyId : ℕ) : Tables :=
  { t with signals := t.signals.map fun s =>
      if s.id ∈ ids then { s with companyId := companyId } else s }

/-- What the flush of a deleted signal does first to its audit logs: the relationship has no
delete cascade. -/
def orphanAuditLogs (t : Tables) (signalIds : List ℕ) : Tables :=
  { t with auditLogs := t.auditLogs.map fun l =>
      if l.signalId.any (· ∈ signalIds) then { l with signalId := none } else l }

/-- `DELETE FROM signals`, with the audit logs that still refer to the rows. -/
def deleteSignals (t : Tables) (ids : List ℕ) : Tables :=
  { t with signals := t.signals.filter fun s => s.id ∉ ids,
           auditLogs := t.auditLogs.filter fun l => ¬ l.signalId.any (· ∈ ids) }

def moveScrapeJobs (t : Tables) (fromId toId : ℕ) : Tables :=
  { t with scrapeJobs := t.scrapeJobs.map fun j =>
      if j.companyId = fromId then { j with companyId := toId } else j }

/-- `DELETE FROM companies`, with everything that still refers to the company. -/
def deleteCompany (t : Tables) (companyId : ℕ) : Tables :=
  let t := t.deleteSignals ((t.signals.filter fun s => s.companyId = companyId).map (·.id))
  { t with
    companies := Table.remove (·.id) t.companies companyId
    integrations := t.integrations.filter fun i => i.companyId ≠ companyId
    contacts := t.contacts.filter fun c => c.companyId ≠ companyId
    scrapeJobs := t.scrapeJobs.filter fun j => j.companyId ≠ companyId
    enrichmentJobs := t.enrichmentJobs.filter fun j => j.companyId ≠ companyId }

end Tables

/-! ## Errors under another name -/

section

variable {ε ε' α : Type} {f : ε → ε'} {x : Except ε α} {a : α}

/-- An error that is raised as another one is still an error. -/
theorem mapError_eq_ok : x.mapError f = .ok a ↔ x = .ok a := by
  cases x with
  | error e => simp [Except.mapError]
  | ok b => simp [Except.mapError]

/-- Whoever catches an error does not see its kind. -/
theorem toOption_mapError (f : ε → ε') (x : Except ε α) : (x.mapError f).toOption = x.toOption := by
  cases x with
  | error e => rfl
  | ok a => rfl

end

end LeadPulse
