import LeadPulse.Lib.Run
import LeadPulse.Breaker.CircuitBreaker

/-!
# Calls that share one circuit breaker

`BaseAPIClient.request` (`services/api/base_client.py`) and `LLMService._run`
(`services/llm/client.py`) as a step function over the calls in flight. A call gives up
control at each `await`, so it is one of

* `acquiring`: past the breaker gate, waiting for the token bucket;
* `sending n`: waiting for the answer to attempt `n`;
* `sleeping n`: in the backoff after attempt `n` failed;
* `running`: an `LLMService._run` waiting for its agent.

Between two awaits a call runs alone, so an `Action` resumes one call and takes it to
its next await or to its end. The actions carry what the outside answers, and any list of
actions is one interleaving of any number of concurrent calls.
-/

namespace LeadPulse

/-! ## Errors and responses -/

/-- The classes of `services/api/errors.py`; the last three are subclasses of the first. -/
inductive ErrorClass where
  | apiError
  | rateLimitError
  | authenticationError
  | providerUnavailableError
deriving DecidableEq, Repr

structure APIError where
  cls : ErrorClass
  message : String
  provider : String
  statusCode : Option ℕ
  retryAfter : Option ℚ := none
deriving DecidableEq, Repr

/-- What `_check_response` reads of an `httpx.Response`. `body` holds the entries of a JSON
object, its values as `str` shows them, and is `none` for any other body; `retryAfter` is
the `Retry-After` header where it parses as a number. -/
structure Response where
  statusCode : ℕ
  body : Option (List (String × String)) := none
  retryAfter : Option ℚ := none
deriving DecidableEq, Repr

/-- The end of one `client.request`: a response, or an `httpx` error with its text. -/
inductive WireResult where
  | response (r : Response)
  | timeout (text : String)
  | connectError (text : String)
  | httpError (text : String)
deriving DecidableEq, Repr

/-- The configuration of a client: class attributes of `BaseAPIClient`. -/
structure ClientConfig where
  provider : String
  maxRetries : ℕ := 3
  cbFailureThreshold : ℕ := 5
  cbRecoveryTimeout : ℚ := 60
deriving DecidableEq, Repr

def extractErrorMessage (r : Response) : String :=
  let keys := ["message", "error", "detail", "error_message"]
  match r.body.bind fun entries => keys.findSome? fun key => entries.lookup key with
  | some val => String.ofList (val.toList.take 200)
  | none => "HTTP " ++ toString r.statusCode

/-- `_check_response`: a typed error for every response that is not 2xx. -/
def checkResponse (cfg : ClientConfig) (r : Response) : Except APIError Response :=
  if 200 ≤ r.statusCode ∧ r.statusCode < 300 then .ok r
  else
    let msg := extractErrorMessage r
    if r.statusCode = 429 then
      .error { cls := .rateLimitError, message := msg, provider := cfg.provider,
               statusCode := some 429, retryAfter := r.retryAfter }
    else if r.statusCode = 401 ∨ r.statusCode = 403 then
      .error { cls := .authenticationError, message := msg, provider := cfg.provider,
               statusCode := some r.statusCode }
    else if 500 ≤ r.statusCode then
      .error { cls := .providerUnavailableError, message := msg, provider := cfg.provider,
               statusCode := some r.statusCode }
    else
      .error { cls := .apiError, message := msg, provider := cfg.provider,
               statusCode := some r.statusCode }

/-- `_send`: transport errors become `ProviderUnavailableError`. -/
def send (cfg : ClientConfig) : WireResult → Except APIError Response
  | .response r => checkResponse cfg r
  | .timeout text => unavailable ("Request timed out: " ++ text)
  | .connectError text => unavailable ("Connection failed: " ++ text)
  | .httpError text => unavailable ("HTTP error: " ++ text)
where
  unavailable (message : String) : Except APIError Response :=
    .error { cls := .providerUnavailableError, message := message, provider := cfg.provider,
             statusCode := none }

/-- The end of `agent.run` in `LLMService._run`; `rateLimited` is an exception for which
`_is_rate_limit` answers yes. -/
inductive AgentResult where
  | output
  | rateLimited (text : String)
  | failed (text : String)
deriving DecidableEq, Repr

/-! ## The step function -/

/-- Where a call in flight is suspended. -/
inductive Call where
  | acquiring
  | sending (attempt : ℕ)
  | sleeping (attempt : ℕ)
  | running
deriving DecidableEq, Repr

structure ClientState where
  breaker : CircuitBreaker
  calls : List Call
  now : ℚ
  /-- How the calls that have ended did so; `none` is a normal return. -/
  ended : List (Option APIError)
  /-- When `record_success` or `record_failure` last ran. -/
  lastEvent : Option ℚ
deriving DecidableEq, Repr

inductive Action where
  /-- The clock moves on. -/
  | tick (d : ℚ)
  /-- A `BaseAPIClient.request` starts. -/
  | request
  /-- An `LLMService._run` starts. -/
  | run
  /-- The token bucket answers call `i`. -/
  | acquired (i : ℕ) (granted : Bool)
  /-- The wire answers call `i`. -/
  | answered (i : ℕ) (r : WireResult)
  /-- The backoff of call `i` is over. -/
  | woke (i : ℕ)
  /-- The agent of call `i` comes back. -/
  | agentDone (i : ℕ) (r : AgentResult)
deriving DecidableEq, Repr

namespace ClientState

/-- A new client at time `t`. -/
def init (cfg : ClientConfig) (t : ℚ) : ClientState where
  breaker := .new cfg.cbFailureThreshold cfg.cbRecoveryTimeout
  calls := []
  now := t
  ended := []
  lastEvent := none

/-- Call `i` ends with the given error, or normally. -/
def endCall (s : ClientState) (i : ℕ) (e : Option APIError) : ClientState :=
  { s with calls := s.calls.eraseIdx i, ended := s.ended ++ [e] }

/-- Call `i` is suspended at `c`. -/
def setCall (s : ClientState) (i : ℕ) (c : Call) : ClientState :=
  { s with calls := s.calls.set i c }

def onSuccess (s : ClientState) : ClientState :=
  { s with breaker := s.breaker.recordSuccess, lastEvent := some s.now }

def onFailure (s : ClientState) : ClientState :=
  { s with breaker := s.breaker.recordFailure s.now, lastEvent := some s.now }

/-- The breaker gate at the start of a call: the call goes on as `c`, or ends. -/
def gate (cfg : ClientConfig) (s : ClientState) (c : Call) : ClientState :=
  match s.breaker.allowRequest s.now with
  | (true, cb) => { s with breaker := cb, calls := s.calls ++ [c] }
  | (false, cb) =>
    { s with breaker := cb,
             ended := s.ended ++ [some
               { cls := .providerUnavailableError,
                 message := "Circuit breaker open for " ++ cfg.provider,
                 provider := cfg.provider, statusCode := none }] }

/-- The rate limiter gate of `request`. With no attempt allowed the loop body never runs
and `raise last_exc` raises a `TypeError`, which reaches the caller like any error. -/
def afterAcquire (cfg : ClientConfig) (s : ClientState) (i : ℕ) (granted : Bool) :
    ClientState :=
  if granted then
    if 1 ≤ cfg.maxRetries then s.setCall i (.sending 1)
    else s.endCall i (some { cls := .apiError, provider := cfg.provider, statusCode := none,
                             message := "exceptions must derive from BaseException" })
  else
    s.endCall i (some { cls := .rateLimitError, provider := cfg.provider,
                        statusCode := some 429,
                        message := "Rate limit exceeded for " ++ cfg.provider })

/-- The body of the retry loop once attempt `n` of call `i` has its answer. -/
def afterSend (cfg : ClientConfig) (s : ClientState) (i n : ℕ) (r : WireResult) :
    ClientState :=
  match send cfg r with
  | .ok _ => s.onSuccess.endCall i none
  | .error e =>
    -- rate-limit and auth errors are re-raised before the breaker hears of them
    if e.cls = .rateLimitError ∨ e.cls = .authenticationError then s.endCall i (some e)
    else if n < cfg.maxRetries then s.onFailure.setCall i (.sleeping n)
    else s.onFailure.endCall i (some e)

/-- The rest of `_run` once the agent has come back. -/
def afterAgent (cfg : ClientConfig) (s : ClientState) (i : ℕ) : AgentResult → ClientState
  | .output => s.onSuccess.endCall i none
  | .rateLimited text => s.endCall i (some (unavailable text))
  | .failed text => s.onFailure.endCall i (some (unavailable text))
where
  unavailable (text : String) : APIError :=
    { cls := .providerUnavailableError, message := text, provider := cfg.provider,
      statusCode := none }

/-- One step of the client. -/
def step (cfg : ClientConfig) (s : ClientState) : Action → Option ClientState
  | .tick d => if 0 ≤ d then some { s with now := s.now + d } else none
  | .request => some (s.gate cfg .acquiring)
  | .run => some (s.gate cfg .running)
  | .acquired i granted =>
    match s.calls[i]? with
    | some .acquiring => some (s.afterAcquire cfg i granted)
    | _ => none
  | .answered i r =>
    match s.calls[i]? with
    | some (.sending n) => some (s.afterSend cfg i n r)
    | _ => none
  | .woke i =>
    match s.calls[i]? with
    | some (.sleeping n) => some (s.setCall i (.sending (n + 1)))
    | _ => none
  | .agentDone i r =>
    match s.calls[i]? with
    | some .running => some (s.afterAgent cfg i r)
    | _ => none

/-! ## What the pieces of a step leave unchanged -/

@[simp] theorem endCall_breaker (s : ClientState) (i : ℕ) (e : Option APIError) :
    (s.endCall i e).breaker = s.breaker := rfl

@[simp] theorem endCall_now (s : ClientState) (i : ℕ) (e : Option APIError) :
    (s.endCall i e).now = s.now := rfl

@[simp] theorem endCall_lastEvent (s : ClientState) (i : ℕ) (e : Option APIError) :
    (s.endCall i e).lastEvent = s.lastEvent := rfl

@[simp] theorem endCall_calls (s : ClientState) (i : ℕ) (e : Option APIError) :
    (s.endCall i e).calls = s.calls.eraseIdx i := rfl

@[simp] theorem setCall_breaker (s : ClientState) (i : ℕ) (c : Call) :
    (s.setCall i c).breaker = s.breaker := rfl

@[simp] theorem setCall_now (s : ClientState) (i : ℕ) (c : Call) :
    (s.setCall i c).now = s.now := rfl

@[simp] theorem setCall_lastEvent (s : ClientState) (i : ℕ) (c : Call) :
    (s.setCall i c).lastEvent = s.lastEvent := rfl

@[simp] theorem setCall_calls (s : ClientState) (i : ℕ) (c : Call) :
    (s.setCall i c).calls = s.calls.set i c := rfl

end ClientState
end LeadPulse
