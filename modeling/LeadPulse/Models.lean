import Mathlib.Data.Rat.Defs
import Mathlib.Tactic.Common

/-!
# The rows of the database

The enumerations of `models/enums.py` and, of the tables, the columns that the modelled
services read or write; also the errors of the endpoints. Times are microseconds, the
resolution of `datetime` and of the database. Texts that are taken apart are lists of
characters.
-/

namespace LeadPulse

/-- A point in time, or a span of time, in microseconds. -/
abbrev Time := ℤ

def hours (n : ℕ) : Time := n * 3600000000

/-- Midnight of the day of `now`, `today_start_utc`. -/
def todayStart (now : Time) : Time := now - now % hours 24

theorem todayStart_le (now : Time) : todayStart now ≤ now := by
  unfold todayStart hours Time at *
  omega

/-- Days do not go back. -/
theorem todayStart_mono {now now' : Time} (h : now ≤ now') : todayStart now ≤ todayStart now' := by
  unfold todayStart hours Time at *
  omega

/-- What is before today when the day has changed was before midnight. -/
theorem lt_todayStart {now now' : Time} (h : todayStart now < todayStart now') :
    now < todayStart now' := by
  unfold todayStart hours Time at *
  omega

/-! ## Enumerations -/

inductive CompanyStatus where
  | discovered
  | enriched
  | monitoring
  | qualified
  | pushed
  | archived
deriving DecidableEq, Repr

inductive SignalType where
  | hiringSurge
  | technologyAdoption
  | digitalTransformation
  | workforceChallenge
  | fundingRound
  | leadershipChange
  | expansion
  | partnership
  | productLaunch
  | other
  | noSignal
deriving DecidableEq, Repr

/-- `SignalType(raw)`, with `none` for the `ValueError`. -/
def SignalType.ofValue? : String → Option SignalType
  | "hiring_surge" => some hiringSurge
  | "technology_adoption" => some technologyAdoption
  | "digital_transformation" => some digitalTransformation
  | "workforce_challenge" => some workforceChallenge
  | "funding_round" => some fundingRound
  | "leadership_change" => some leadershipChange
  | "expansion" => some expansion
  | "partnership" => some partnership
  | "product_launch" => some productLaunch
  | "other" => some other
  | "no_signal" => some noSignal
  | _ => none

inductive SignalAction where
  | notifyImmediate
  | notifyDigest
  | enrichFurther
  | ignore
deriving DecidableEq, Repr

inductive AuditLogTarget where
  | clickup
  | crm
  | slack
  | enrichment
deriving DecidableEq, Repr

inductive AuditLogStatus where
  | success
  | failure
deriving DecidableEq, Repr

/-! ## Tables -/

structure Company where
  id : ℕ
  name : List Char
  domain : List Char
  status : CompanyStatus := .discovered
  leadScore : Option ℚ := none
  clickupTaskId : Option String := none
  clickupTaskUrl : Option String := none
  clickupStatus : Option String := none
  linkedinLastScrapedAt : Option Time := none
  slackNotifiedAt : Option Time := none
deriving DecidableEq, Repr

structure Signal where
  id : ℕ
  companyId : ℕ
  signalType : SignalType
  relevanceScore : Option ℤ := none
  llmSummary : Option String := none
  rawContentHash : Option String := none
  actionTaken : Option SignalAction := none
  rawMarkdown : Option String := none
  isProcessed : Bool := false
  actionExecutedAt : Option Time := none
  createdAt : Time
deriving DecidableEq, Repr

structure AuditLog where
  signalId : ℕ
  actionType : SignalAction
  target : AuditLogTarget
  targetId : Option String := none
  status : AuditLogStatus
  errorMessage : Option String := none
deriving DecidableEq, Repr

structure EnrichmentJob where
  companyId : ℕ
  createdAt : Time
deriving DecidableEq, Repr

/-- A row with the provider `clickup`; a company has at most one. -/
structure CRMIntegration where
  companyId : ℕ
  externalId : String
  externalUrl : Option String
  externalStatus : Option String
deriving DecidableEq, Repr

/-! ## Errors -/

/-- The error with which an endpoint answers. -/
structure HTTPException where
  statusCode : ℕ
  detail : String
deriving DecidableEq, Repr

end LeadPulse
