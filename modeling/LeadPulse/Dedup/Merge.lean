import LeadPulse.Database
import LeadPulse.Domain.UrlParse
import LeadPulse.Lib.Unseen

/-!
# Merging two companies

`merge_companies` (`services/deduplication.py`). What the session has changed is flushed
before its next query, so every statement is here in the order in which the database gets
it, with the constraints checked after it. The two queries for the duplicate's rows have no
`ORDER BY`: their orders are parameters.
-/

namespace LeadPulse
namespace Dedup

open Unseen

inductive MergeError where
  | valueError (detail : String)
  | integrityError (violation : Violation)
deriving DecidableEq, Repr

/-- An empty email counts as none. -/
def emailKey (U : Unicode) (c : Contact) : Option (List Char) :=
  match c.email with
  | none => none
  | some e => if e = [] then none else some (U.lower e)

/-- An empty hash counts as none. -/
def hashKey (s : SignalRow) : Option String :=
  match s.rawContentHash with
  | none => none
  | some h => if h = "" then none else some h

def contactsOf (t : Tables) (companyId : ℕ) : List Contact :=
  t.contacts.filter fun c => c.companyId = companyId

def signalsOf (t : Tables) (companyId : ℕ) : List SignalRow :=
  t.signals.filter fun s => s.companyId = companyId

/-- `existing_emails` before the loop. -/
def existingEmails (U : Unicode) (t : Tables) (companyId : ℕ) : List (List Char) :=
  (contactsOf t companyId).filterMap (emailKey U)

/-- `existing_hashes` before the loop: all that are not `NULL`. -/
def existingHashes (t : Tables) (companyId : ℕ) : List String :=
  (signalsOf t companyId).filterMap (·.rawContentHash)

section

variable (U : Unicode) (contactOrder : RowOrder Contact) (signalOrder : RowOrder SignalRow)
  (t : Tables) (primaryId duplicateId : ℕ)

/-- The contacts that the first loop moves. -/
def movedContacts : List Contact :=
  unseen (emailKey U) (existingEmails U t primaryId)
    (contactOrder.arrange (contactsOf t duplicateId))

/-- The contacts that the first loop deletes. -/
def droppedContacts : List Contact :=
  repeated (emailKey U) (existingEmails U t primaryId)
    (contactOrder.arrange (contactsOf t duplicateId))

/-- The signals that the second loop moves. -/
def movedSignals : List SignalRow :=
  unseen hashKey (existingHashes t primaryId) (signalOrder.arrange (signalsOf t duplicateId))

/-- The signals that the second loop deletes. -/
def droppedSignals : List SignalRow :=
  repeated hashKey (existingHashes t primaryId) (signalOrder.arrange (signalsOf t duplicateId))

/-- The statements of the transaction. -/
def mergeRows (db : Database) : Except Violation Database := do
  let movedC := (movedContacts U contactOrder db.tables primaryId duplicateId).map (·.id)
  let droppedC := (droppedContacts U contactOrder db.tables primaryId duplicateId).map (·.id)
  let db ← (db.tables.moveContacts movedC primaryId).check
  let db ← (db.tables.deleteContacts droppedC).check
  let movedS := (movedSignals signalOrder db.tables primaryId duplicateId).map (·.id)
  let droppedS := (droppedSignals signalOrder db.tables primaryId duplicateId).map (·.id)
  let db ← (db.tables.orphanAuditLogs droppedS).check
  let db ← (db.tables.moveSignals movedS primaryId).check
  let db ← (db.tables.deleteSignals droppedS).check
  let db ← (db.tables.moveScrapeJobs duplicateId primaryId).check
  (db.tables.deleteCompany duplicateId).check

/-- `merge_companies`; the primary that it returns is read from the new tables. -/
def mergeCompanies (db : Database) : Except MergeError Database :=
  if primaryId = duplicateId then .error (.valueError "Cannot merge a company with itself")
  else match db.tables.company primaryId, db.tables.company duplicateId with
    | none, _ => .error (.valueError ("Primary company " ++ toString primaryId ++ " not found"))
    | some _, none =>
      .error (.valueError ("Duplicate company " ++ toString duplicateId ++ " not found"))
    | some _, some _ =>
      (mergeRows U contactOrder signalOrder primaryId duplicateId db).mapError .integrityError

/-! ## What a merge leaves -/

/-- The contacts, when the rows of the first loop have been flushed. -/
def mergeContacts : Tables :=
  (t.moveContacts ((movedContacts U contactOrder t primaryId duplicateId).map (·.id))
    primaryId).deleteContacts ((droppedContacts U contactOrder t primaryId duplicateId).map (·.id))

/-- The signals, when the rows of the second loop have been flushed. -/
def mergeSignals : Tables :=
  ((t.orphanAuditLogs ((droppedSignals signalOrder t primaryId duplicateId).map (·.id))).moveSignals
    ((movedSignals signalOrder t primaryId duplicateId).map (·.id)) primaryId).deleteSignals
    ((droppedSignals signalOrder t primaryId duplicateId).map (·.id))

/-- The tables after all statements. -/
def merged : Tables :=
  ((mergeSignals signalOrder (mergeContacts U contactOrder t primaryId duplicateId) primaryId
    duplicateId).moveScrapeJobs duplicateId primaryId).deleteCompany duplicateId

end

variable {U : Unicode} {contactOrder : RowOrder Contact} {signalOrder : RowOrder SignalRow}
  {t : Tables} {db db' : Database} {primaryId duplicateId : ℕ}

/-- A statement goes through exactly if its tables meet the constraints. -/
theorem check_bind_ok {f : Database → Except Violation Database} :
    (t.check >>= f) = .ok db' ↔ ∃ h : t.Constraints, f ⟨t, h⟩ = .ok db' := by
  constructor
  · intro hf
    cases ht : t.check with
    | error e =>
      rw [ht] at hf
      cases hf
    | ok db =>
      have htables := Tables.check_ok ht
      rw [ht] at hf
      obtain ⟨tables, hvalid⟩ := db
      subst htables
      exact ⟨hvalid, hf⟩
  · rintro ⟨h, hf⟩
    rw [Tables.check_of_constraints h]
    exact hf

/-- The transaction, statement by statement. -/
theorem mergeRows_ok :
    mergeRows U contactOrder signalOrder primaryId duplicateId db = .ok db' ↔
      let t := db.tables
      let t₁ := t.moveContacts ((movedContacts U contactOrder t primaryId duplicateId).map (·.id))
        primaryId
      let t₂ := mergeContacts U contactOrder t primaryId duplicateId
      let dropped := (droppedSignals signalOrder t₂ primaryId duplicateId).map (·.id)
      let t₃ := t₂.orphanAuditLogs dropped
      let t₄ := t₃.moveSignals ((movedSignals signalOrder t₂ primaryId duplicateId).map (·.id))
        primaryId
      let t₅ := t₄.deleteSignals dropped
      let t₆ := t₅.moveScrapeJobs duplicateId primaryId
      let t₇ := t₆.deleteCompany duplicateId
      t₁.Constraints ∧ t₂.Constraints ∧ t₃.Constraints ∧ t₄.Constraints ∧ t₅.Constraints ∧
        t₆.Constraints ∧ ∃ h : t₇.Constraints, (⟨t₇, h⟩ : Database) = db' := by
  unfold mergeRows
  simp only [check_bind_ok, exists_prop]
  have hlast {t : Tables} : t.check = .ok db' ↔ ∃ h : t.Constraints, (⟨t, h⟩ : Database) = db' := by
    have hpure : (t.check >>= fun db => .ok db) = t.check := by
      cases t.check <;> rfl
    rw [← hpure, check_bind_ok]
    simp only [Except.ok.injEq]
  rw [hlast]
  rfl

theorem mergeRows_tables
    (h : mergeRows U contactOrder signalOrder primaryId duplicateId db = .ok db') :
    db'.tables = merged U contactOrder signalOrder db.tables primaryId duplicateId := by
  obtain ⟨-, -, -, -, -, -, -, rfl⟩ := mergeRows_ok.mp h
  rfl

/-- When a merge returns. -/
theorem mergeCompanies_ok :
    mergeCompanies U contactOrder signalOrder primaryId duplicateId db = .ok db' ↔
      primaryId ≠ duplicateId ∧ (∃ p, db.tables.company primaryId = some p) ∧
        (∃ d, db.tables.company duplicateId = some d) ∧
        mergeRows U contactOrder signalOrder primaryId duplicateId db = .ok db' := by
  unfold mergeCompanies
  by_cases hne : primaryId = duplicateId
  · rw [if_pos hne]
    constructor
    · intro h
      cases h
    · exact fun h => absurd hne h.1
  · rw [if_neg hne]
    cases db.tables.company primaryId with
    | none => simp
    | some p =>
      cases db.tables.company duplicateId with
      | none => simp
      | some d => simp [mapError_eq_ok, hne]

end Dedup
end LeadPulse
