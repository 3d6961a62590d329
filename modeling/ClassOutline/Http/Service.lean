import ClassOutline.Http.Counters
import ClassOutline.Http.Response
import ClassOutline.Settings

/-!
# The service

The service answers one request after another. Its state is the number of requests that the rate
limit still lets through, and the counters. Every response carries the headers for requests from other
origins. A request for an analysis ends with an outcome, from which both the counters and the
response follow.

What becomes of a request is told by what the rate limit decides about it (`Service.conclude`), and
the decision is apart from that: the service runs with a limit whose tokens are taken and do not come
back (`Service.handle`).

## Endpoints

Paths are matched as they stand. The analysis is offered at the root and below `/api/v1`, and the
rate limit covers `POST /` and everything at or below `/api/v1`, known or not.
-/

namespace ClassOutline.Http

/-! ## Endpoints -/

/-- What a request is directed at. -/
inductive Endpoint where
  | health
  | ready
  | counters
  | analysis
  | unknownPath
  | wrongMethod
deriving DecidableEq, Repr

namespace Endpoint

/-- The methods that the service knows. -/
def methods : List String :=
  ["CONNECT", "DELETE", "GET", "HEAD", "OPTIONS", "PATCH", "POST", "PUT", "TRACE"]

/-- An endpoint that has one method. -/
def only (method wanted : String) (e : Endpoint) : Endpoint :=
  if method == wanted then e else .wrongMethod

/-- Whether a path is the versioned interface or lies below it. -/
def isVersioned (path : Bytes) : Bool :=
  path == Bytes.ofString "/api/v1" || (Bytes.ofString "/api/v1/").isPrefixOf path

/-- The method of a request, if the service knows it. -/
def knownMethod? (method : Bytes) : Option String :=
  methods.find? fun m => Bytes.ofString m == method

/-- The endpoint of a method and path. -/
def ofPath (method : String) (path : Bytes) : Endpoint :=
  if path == Bytes.ofString "/health" then only method "GET" .health
  else if path == Bytes.ofString "/ready" then only method "GET" .ready
  else if path == Bytes.ofString "/metrics" then .counters
  else if path == Bytes.ofString "/" || path == Bytes.ofString "/api/v1/analyze" then
    only method "POST" .analysis
  else .unknownPath

/-- The endpoint of a request. A method that is not known is wrong everywhere. -/
def ofRequest (r : Request) : Endpoint :=
  match knownMethod? r.method with
  | some method => ofPath method r.path
  | none => .wrongMethod

/-- Whether the rate limit covers a request. -/
def isLimited (r : Request) : Bool :=
  match knownMethod? r.method with
  | some method => isVersioned r.path || (method == "POST" && r.path == Bytes.ofString "/")
  | none => false

end Endpoint

/-! ## Answers -/

/-- The answer to a request, and what is noted about it. -/
structure Answer where
  response : Response
  /-- What became of a request for an analysis. -/
  outcome : Option Outcome := none
  /-- The languages that the code shows, noted for debugging when the client gave no hint. -/
  candidates : Option (List Language) := none
deriving DecidableEq, Repr

namespace Answer

/-- The envelope and status of a refusal that depends on nothing but its reason. -/
def refusal : Rejection → Nat × Bytes
  | .rateLimited => (429, Envelope.rateLimited)
  | .tooLarge => (413, Envelope.tooLarge)
  | .badRequest => (400, Envelope.malformed)
  | .noCode => (400, Envelope.noCodeMessage)

/-- The answer to a refused request. -/
def rejected (reason : Rejection) : Answer :=
  let (status, message) := refusal reason
  { response := .ofEnvelope status (.failure message .unknown []), outcome := some (.rejected reason) }

/-- The answer to a submission. -/
def ofSubmission (registry : Registry) (s : Submission) : Answer :=
  let hint := Language.normalizeHint s.language
  if s.code.isBlank then
    { response := .ofEnvelope 400 (.noCode hint s.filename), outcome := some (.rejected .noCode) }
  else
    let analysis := registry.analyze s.code hint s.filename
    { response := .ofEnvelope 200 (.ofOutline (some analysis.outline) analysis.language s.filename)
      outcome := some (.analyzed analysis)
      candidates := if hint.isEmpty then some (Language.candidates s.code) else none }

/-- The answer to a request for an analysis. Its response always names the analysis. -/
def ofAnalysisRequest (registry : Registry) (limit : Nat) (r : Request) : Answer :=
  let answer :=
    match Submission.ofRequest limit r with
    | .ok s => ofSubmission registry s
    | .error reason => rejected reason
  { answer with response := { answer.response with identified := true } }

/-- The answer of a status endpoint. -/
def status (word : String) : Answer :=
  { response := .ofTable 200 [(Bytes.ofString "status", Bytes.ofString word)] }

/-- The answer that consists of an error message. -/
def error (code : Nat) (message : String) : Answer :=
  { response := .error code (Bytes.ofString message) }

/-- The answer that shows the counters. -/
def ofCounters (c : Counters) : Answer :=
  { response :=
      { status := 200
        headers :=
          [(Bytes.ofString "Content-Type", Bytes.ofString "text/plain; version=0.0.4; charset=utf-8")]
        body := c.page } }

end Answer

/-! ## The service -/

/-- The service with its state. -/
structure Service where
  settings : Settings
  registry : Registry := .builtIn
  /-- How many requests the rate limit still lets through; nothing when there is no limit. -/
  tokens : Option Nat
  counters : Counters := []

namespace Service

/-- The service for settings that break no rule. -/
def start (settings : Settings) : Except (List Settings.Violation) Service :=
  if settings.violations.isEmpty then
    .ok
      { settings := settings
        tokens := if settings.rateLimit.isPositive then some settings.rateBurst.toNat else none }
  else .error settings.violations

/-- The response with the headers for requests from other origins. -/
def withOrigin (s : Service) (r : Response) : Response :=
  { r with
    headers := r.headers ++
      [(Bytes.ofString "Access-Control-Allow-Origin", s.settings.corsOrigin),
        (Bytes.ofString "Access-Control-Allow-Methods", Bytes.ofString "POST, OPTIONS"),
        (Bytes.ofString "Access-Control-Allow-Headers", Bytes.ofString "Content-Type")] }

/-- The answer of the endpoint of a request, without regard to the rate limit. -/
def answer (s : Service) (r : Request) : Answer :=
  match Endpoint.ofRequest r with
  | .health => .status "ok"
  | .ready => .status "ready"
  | .counters => .ofCounters s.counters
  | .analysis => .ofAnalysisRequest s.registry s.settings.maxUploadBytes.toNat r
  | .unknownPath => .error 404 "not found"
  | .wrongMethod => .error 405 "method not allowed"

/-- The answer to a request. Whether the rate limit admits the request matters only where it covers
it, and a pre-flight request is answered before the limit is asked. -/
def respond (s : Service) (admitted : Bool) (r : Request) : Answer :=
  if r.method == Bytes.ofString "OPTIONS" then
    { response := { status := 204, headers := [], body := [] } }
  else if Endpoint.isLimited r && !admitted then .rejected .rateLimited
  else s.answer r

/-- One request on which the rate limit has decided: the answer, and the service afterwards. -/
def conclude (s : Service) (admitted : Bool) (r : Request) : Answer × Service :=
  let answer := s.respond admitted r
  let counters := (answer.outcome.map s.counters.record).getD s.counters
  ({ answer with response := s.withOrigin answer.response }, { s with counters })

/-- What a limit whose tokens do not come back decides: it admits requests while there are tokens. -/
def hasToken (s : Service) : Bool := s.tokens != some 0

/-- The tokens that are left after a request. Only one that the limit was asked about takes a token. -/
def tokensAfter (s : Service) (r : Request) : Option Nat :=
  if r.method != Bytes.ofString "OPTIONS" && Endpoint.isLimited r then s.tokens.map (· - 1)
  else s.tokens

/-- One request: the answer, and the service afterwards. -/
def handle (s : Service) (r : Request) : Answer × Service :=
  let (answer, t) := s.conclude s.hasToken r
  (answer, { t with tokens := s.tokensAfter r })

/-- Requests in order: the answers, and the service afterwards. -/
def serve (s : Service) : List Request → List Answer × Service
  | [] => ([], s)
  | r :: rs =>
    let (answer, s) := s.handle r
    let (answers, s) := s.serve rs
    (answer :: answers, s)

end Service

end ClassOutline.Http
