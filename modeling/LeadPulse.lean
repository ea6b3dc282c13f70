import LeadPulse.Lib.Run
import LeadPulse.Breaker.CircuitBreaker
import LeadPulse.Breaker.Client
import LeadPulse.Breaker.Recovery
import LeadPulse.Lib.PyStr
import LeadPulse.Lib.Regex
import LeadPulse.Domain.IpAddress
import LeadPulse.Domain.UrlParse
import LeadPulse.Domain.Validate
import LeadPulse.Domain.ValidateTheorems
import LeadPulse.Domain.Writers
import LeadPulse.Domain.WritersTheorems
import LeadPulse.Lib.Table
import LeadPulse.Signals.Analysis
import LeadPulse.Signals.Orchestrator
import LeadPulse.Pipeline.Background
import LeadPulse.Pipeline.World
import LeadPulse.Pipeline.Moves
import LeadPulse.Lib.Slots
import LeadPulse.Pipeline.Sound
import LeadPulse.Pipeline.DispatchedOnce
import LeadPulse.Pipeline.Verdicts
import LeadPulse.Pipeline.Cooldown
import LeadPulse.Pipeline.Digest
import LeadPulse.Pipeline.Archived
import LeadPulse.Pipeline.DailyLimit
import LeadPulse.Signals.Queue
import LeadPulse.Signals.QueueTheorems
import LeadPulse.Discovery.RunLimit
import LeadPulse.Signals.Budget
import LeadPulse.Signals.Inline
import LeadPulse.Auth.Tokens
import LeadPulse.Lib.Expiry
import LeadPulse.Lib.Pool
import LeadPulse.Auth.Requests
import LeadPulse.Auth.SingleUse
import LeadPulse.Auth.Revoked
import LeadPulse.Auth.GoogleLogin
import LeadPulse.Frontend.Session
import LeadPulse.Icp.Profile
import LeadPulse.Icp.Transactions
import LeadPulse.Icp.OneActive
import LeadPulse.Icp.ActiveKept
import LeadPulse.Database
import LeadPulse.Lib.Unseen
import LeadPulse.Dedup.Merge
import LeadPulse.Lib.Absorb
import LeadPulse.Dedup.Conserves
import LeadPulse.Dedup.Completes
import LeadPulse.Dedup.Scan
import LeadPulse.Dedup.Grouping
import LeadPulse.Signals.Hashes
import LeadPulse.Jobs.Lifecycle
import LeadPulse.Jobs.Settled
import LeadPulse.Crm.ClickUp
import LeadPulse.Crm.Provider
import LeadPulse.Crm.Runs
import LeadPulse.Crm.Agreement
import LeadPulse.Crm.Comments
import LeadPulse.Crm.OneTask
import LeadPulse.Crm.Batch
import LeadPulse.Crm.Persons
import LeadPulse.Crm.People
import LeadPulse.Crm.Constraints
import LeadPulse.Breaker.RateLimiter
import LeadPulse.Breaker.Traffic
import LeadPulse.Discovery.NegativeFilters
import LeadPulse.Enrichment.CompanyInfo
import LeadPulse.Lib.PyNum
import LeadPulse.Pipeline.ScrapeLimit
import LeadPulse.Scoring.Pinned
import LeadPulse.Settings.UsageLimits
import LeadPulse.Breaker.Specification
import LeadPulse.Discovery.Accounting
import LeadPulse.Discovery.Rerun
import LeadPulse.Domain.Idempotent
import LeadPulse.Domain.ImportCells
import LeadPulse.Domain.IntelUrls
import LeadPulse.Frontend.Page
import LeadPulse.Frontend.SingleFlight
import LeadPulse.Frontend.Tabs
import LeadPulse.Scoring.Dimensions
import LeadPulse.Frontend.Callbacks
import LeadPulse.Enrichment.Emails
import LeadPulse.Enrichment.Providers
import LeadPulse.Enrichment.Rerun
import LeadPulse.Scoring.IcpScore
import LeadPulse.Signals.Outcomes
import LeadPulse.Domain.ClassifyUrl
import LeadPulse.Domain.SelectUrls
import LeadPulse.Lib.OrderedPages
import LeadPulse.Listing.Pages
import LeadPulse.Domain.UrlJoin
import LeadPulse.Lib.Cache
import LeadPulse.Lib.Like
import LeadPulse.Listing.Search
import LeadPulse.Signals.Monitor
import LeadPulse.Signals.MonitorRerun
import LeadPulse.Lib.Rotation
import LeadPulse.LinkedIn.Batch
import LeadPulse.LinkedIn.Rotation
import LeadPulse.LinkedIn.Starvation
import LeadPulse.Settings.Secrets
import LeadPulse.Settings.SecretsTheorems
import LeadPulse.Discovery.SearchParams
import LeadPulse.Lib.Backtrack
import LeadPulse.Lib.Groups
import LeadPulse.LinkedIn.CompanyUrl
import LeadPulse.Pipeline.Funnel
import LeadPulse.Pipeline.FunnelGrows
import LeadPulse.Discovery.Resumed
import LeadPulse.Frontend.FormRequests
import LeadPulse.Frontend.ResavedProfile
import LeadPulse.Frontend.Selection
import LeadPulse.Lib.GroupedTop
import LeadPulse.Pipeline.DigestMessage
import LeadPulse.Auth.GoogleKeys
import LeadPulse.Lib.Outline
import LeadPulse.Prompts.Config
