import LeadPulse.Domain.SelectUrls
import LeadPulse.Domain.UrlJoin
import LeadPulse.Lib.Cache
import LeadPulse.Pipeline.ScrapeLimit

/-!
# Monitoring the pages of a company

`SignalMonitorService.monitor_company` (`services/signal_monitor.py`) scrapes the pages of a
company that look like news and vacancies. A page has changed if the hash of its content, with the
white space normalised, is not the one that Redis holds for it; then the new one is put there for
90 days. A hash that is found is not put there again, and its 90 days run on.

What Firecrawl and Redis answer, and the clocks, are part of a `MonitorCall`.
-/

namespace LeadPulse
namespace Monitor

open PyStr
open Domain (selectIntelUrls)
open Scrape (ScrapeRow)

/-- What the service takes from libraries. -/
structure Libraries where
  unicode : Unicode
  /-- The characters of `str.isdigit`. -/
  digit : Char → Bool
  /-- `hashlib.sha256(text.encode()).hexdigest()` -/
  sha256 : List Char → List Char
  /-- `can_fetch("*", url)` after a `robots.txt` has been parsed for a site; `none` if that raises.
  It parses the URL, and may raise itself. -/
  parseRobots : (robotsTxt baseUrl : List Char) → Option (List Char → Except ValueError Bool)

/-! ## Content hashes -/

/-- The hashes in Redis. -/
abbrev HashCache := Cache (List Char) (List Char) Time

/-- `_HASH_TTL` -/
def hashTtl : Time := hours (90 * 24)

/-- `_content_hash` -/
def contentHash (L : Libraries) (content : List Char) : List Char :=
  L.sha256 ([' '].intercalate (words content))

/-- `_redis_hash_key` -/
def redisHashKey (companyId : ℕ) (url : List Char) : List Char :=
  "content_hash:".toList ++ Nat.toDigits 10 companyId ++ ':' :: url

/-- What happens when the turn of a page comes. -/
structure Turn where
  /-- The time since the start at the runtime guard. -/
  elapsed : Time
  /-- The markdown of the page, or an exception. -/
  scrape : Except String (List Char)
  /-- The clock of Redis when the hash is read. -/
  readAt : Time
  /-- The clock of Redis when the hash is set. -/
  writeAt : Time
  /-- Redis answers `get`. -/
  canRead : Bool := true
  /-- Redis answers `setex`. -/
  canWrite : Bool := true
deriving DecidableEq

def getCachedHash (cache : HashCache) (companyId : ℕ) (url : List Char) (turn : Turn) :
    Option (List Char) :=
  if turn.canRead then cache.get (redisHashKey companyId url) turn.readAt else none

def setCachedHash (cache : HashCache) (companyId : ℕ) (url contentHash : List Char)
    (turn : Turn) : HashCache :=
  if turn.canWrite then
    cache.setex (redisHashKey companyId url) contentHash turn.writeAt hashTtl
  else cache

/-! ## A run -/

structure SignalMonitorService where
  additionalSeedPaths : List (List Char) := []
  maxScrapeUrls : ℕ := 22

structure MonitorResult where
  companyId : ℕ
  companyDomain : List Char := []
  pagesScraped : ℕ := 0
  pagesChanged : ℕ := 0
  pagesSkipped : ℕ := 0
  pagesFailed : ℕ := 0
  signalsCreated : ℕ := 0
  creditsUsed : ℚ := 0
  elapsedSeconds : Time := 0
  error : Option (List Char) := none
deriving DecidableEq, Repr

/-- A call of `monitor_company`, with all that it is answered. -/
structure MonitorCall where
  service : SignalMonitorService := {}
  companyId : ℕ
  /-- The company with this id. -/
  company : Option Company
  /-- The markdown of `robots.txt`, or an exception. -/
  robots : Except String (List Char)
  /-- The links of the site, or an exception. -/
  links : Except String (List (List Char))
  /-- The turns of the pages, in the order of the loop. -/
  turn : ℕ → Turn
  /-- The id and the time of creation that the database gives to the job. -/
  jobId : ℕ
  createdAt : Time
  startedAt : Time
  completedAt : Time
  /-- The time since the start after the last page. -/
  elapsed : Time

/-! ### The pages -/

/-- `fallback_intel_paths()` -/
def fallbackIntelPaths : List (List Char) :=
  ["/careers", "/jobs", "/vacatures", "/vacature", "/werken-bij", "/news", "/nieuws", "/blog",
    "/press"].map String.toList

/-- `urljoin(base_url + "/", path.lstrip("/"))` -/
def joinPath (U : Unicode) (baseUrl path : List Char) : Except ValueError (List Char) :=
  Url.join U (baseUrl ++ ['/']) (path.dropWhile (· == '/'))

/-- The pages that are picked from the links, `none` if an exception is caught. -/
def mapTargets (L : Libraries) (call : MonitorCall) (domain : List Char) :
    Option (List (List Char)) :=
  match call.links with
  | .error _ => none
  | .ok rawLinks =>
    match selectIntelUrls L.unicode L.digit rawLinks domain 14 10 call.service.maxScrapeUrls with
    | .error _ => none
    | .ok (picked, _) => some picked

/-- One turn of the loop over the additional seed paths. -/
def addSeed (U : Unicode) (baseUrl : List Char) (targets : List (List Char))
    (extra : List Char) : Except ValueError (List (List Char)) := do
  let u ← joinPath U baseUrl extra
  return if targets.contains u then targets else targets ++ [u]

/-- The pages that are picked, or those of the fallback list. -/
def pickTargets (L : Libraries) (call : MonitorCall) (domain baseUrl : List Char) :
    Except ValueError (List (List Char)) :=
  let picked := (mapTargets L call domain).getD []
  if picked = [] then fallbackIntelPaths.mapM (joinPath L.unicode baseUrl) else .ok picked

/-- `targets` -/
def monitorTargets (L : Libraries) (call : MonitorCall) (domain baseUrl : List Char) :
    Except ValueError (List (List Char)) := do
  let targets ← pickTargets L call domain baseUrl
  let targets ← call.service.additionalSeedPaths.foldlM (addSeed L.unicode baseUrl) targets
  return targets.take call.service.maxScrapeUrls

/-- `_fetch_robots_txt` -/
def fetchRobotsTxt (L : Libraries) (call : MonitorCall) (baseUrl : List Char) :
    Option (List Char → Except ValueError Bool) :=
  match call.robots with
  | .error _ => none
  | .ok markdown => if markdown = [] then none else L.parseRobots markdown baseUrl

/-- `not robots_parser or robots_parser.can_fetch("*", page_url)` -/
def canFetch (robots : Option (List Char → Except ValueError Bool)) (pageUrl : List Char) :
    Except ValueError Bool :=
  match robots with
  | none => .ok true
  | some parser => parser pageUrl

/-! ### The loop -/

/-- The counters, and what is in Redis. -/
structure PageState where
  result : MonitorResult
  cache : HashCache

/-- There is enough text on the page. -/
def hasContent (markdown : List Char) : Bool := markdown ≠ [] ∧ 50 ≤ (strip markdown).length

/-- A page that may be fetched. -/
def visitPage (L : Libraries) (companyId : ℕ) (s : PageState) (pageUrl : List Char)
    (turn : Turn) : PageState :=
  match turn.scrape with
  | .error _ => { s with result := { s.result with pagesFailed := s.result.pagesFailed + 1 } }
  | .ok markdown =>
    let result := { s.result with
      creditsUsed := s.result.creditsUsed + 1, pagesScraped := s.result.pagesScraped + 1 }
    if hasContent markdown then
      let newHash := contentHash L markdown
      if getCachedHash s.cache companyId pageUrl turn = some newHash then { s with result }
      else
        { result := { result with pagesChanged := result.pagesChanged + 1 }
          cache := setCachedHash s.cache companyId pageUrl newHash turn }
    else { s with result := { result with pagesSkipped := result.pagesSkipped + 1 } }

/-- `_MAX_RUNTIME` -/
def maxRuntime : Time := 300000000

/-- The loop over the pages, from the `i`-th on, with the exception that ends it. -/
def visitPages (L : Libraries) (companyId : ℕ)
    (robots : Option (List Char → Except ValueError Bool)) (turn : ℕ → Turn) :
    ℕ → List (List Char) → PageState → Option ValueError × PageState
  | _, [], s => (none, s)
  | i, pageUrl :: targets, s =>
    if maxRuntime < (turn i).elapsed then
      (none, { s with result := { s.result with error := some "timeout after 5 minutes".toList } })
    else
      match canFetch robots pageUrl with
      | .error e => (some e, s)
      | .ok false =>
        visitPages L companyId robots turn (i + 1) targets
          { s with result := { s.result with pagesSkipped := s.result.pagesSkipped + 1 } }
      | .ok true =>
        visitPages L companyId robots turn (i + 1) targets
          (visitPage L companyId s pageUrl (turn i))

/-! ### `monitor_company` -/

/-- How a call ends: with a result and the row of its job, or with an exception, and then the
result is what the counters have come to. -/
structure MonitorEnd where
  result : MonitorResult
  raised : Option ValueError := none
  job : Option ScrapeRow := none

/-- The row of the job while the pages are scraped. -/
def startJob (call : MonitorCall) : ScrapeRow where
  id := call.jobId
  companyId := call.companyId
  createdAt := call.createdAt
  status := .running
  startedAt := some call.startedAt

def finishJob (job : ScrapeRow) (completedAt : Time) (result : MonitorResult) : ScrapeRow :=
  { job with
    status := if result.error = none then .completed else .failed
    completedAt := some completedAt
    pagesScraped := some result.pagesScraped
    creditsUsed := some result.creditsUsed
    errorMessage := result.error }

/-- The end for a company that is not there. -/
def missingCompany (companyId : ℕ) : MonitorEnd where
  result :=
    { companyId := companyId
      error := some "company not found or archived".toList }

/-- The result when the loop begins. The links of the site have cost a credit. -/
def beforeLoop (L : Libraries) (call : MonitorCall) (domain : List Char) : MonitorResult where
  companyId := call.companyId
  companyDomain := domain
  creditsUsed := if (mapTargets L call domain).isSome then 1 else 0

def afterLoop (call : MonitorCall) : Option ValueError × PageState → MonitorEnd × HashCache
  | (some e, s) => ({ result := s.result, raised := some e }, s.cache)
  | (none, s) =>
    let result := { s.result with elapsedSeconds := call.elapsed }
    ({ result, job := some (finishJob (startJob call) call.completedAt result) }, s.cache)

/-- `monitor_company` for a company that is there. -/
def monitorPages (L : Libraries) (call : MonitorCall) (domain : List Char) (cache : HashCache) :
    MonitorEnd × HashCache :=
  let baseUrl := "https://".toList ++ domain
  let robots := fetchRobotsTxt L call baseUrl
  let result := beforeLoop L call domain
  match monitorTargets L call domain baseUrl with
  | .error e => ({ result, raised := some e }, cache)
  | .ok targets =>
    afterLoop call (visitPages L call.companyId robots call.turn 0 targets ⟨result, cache⟩)

def monitorCompany (L : Libraries) (call : MonitorCall) (cache : HashCache) :
    MonitorEnd × HashCache :=
  match call.company with
  | none => (missingCompany call.companyId, cache)
  | some company =>
    if company.status = .archived then (missingCompany call.companyId, cache)
    else monitorPages L call company.domain cache

end Monitor
end LeadPulse
