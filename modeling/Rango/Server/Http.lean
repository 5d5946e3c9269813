import Rango.Server.RateLimiter
import Rango.Server.Requests

/-!
# The server over HTTP

`Http` is a server process: its state, the tokens that it knows, its metrics and the rate limiter.
A call is answered behind the limiter; the handlers of the four requests check the version of the
protocol and the token, and hand the request to `ServerState` under the principal of the token.
The calls are those whose body axum has taken for a request of the route.
-/

namespace Rango

/-! ## Headers -/

/-- `HeaderValue`: its bytes. -/
abbrev HeaderValue : Type := List UInt8

/-- `HeaderValue::to_str`: visible ASCII characters and tabs. -/
def HeaderValue.toStr (v : HeaderValue) : Option String :=
  if v.all fun b => (32 ≤ b && b < 127) || b = 9 then
    some (String.ofList (v.map fun b => Char.ofNat b.toNat))
  else none

/-- `HeaderMap`: names in lower case, each with a value. -/
abbrev HeaderMap : Type := List (String × HeaderValue)

/-- `HeaderMap::get`: the first value under the name, whatever its case. -/
def HeaderMap.get (headers : HeaderMap) (name : String) : Option HeaderValue :=
  (headers.find? fun header => header.1 = name.toLower).map Prod.snd

/-- The text of a header, when it has one. -/
def HeaderMap.getStr (headers : HeaderMap) (name : String) : Option String :=
  (headers.get name).bind HeaderValue.toStr

/-- `str::strip_prefix`. -/
def stripPrefix (start s : String) : Option String :=
  if start.toList.isPrefixOf s.toList then some (String.ofList (s.toList.drop start.length))
  else none

/-- `parse_read_tier`. -/
def parseReadTier (header : Option HeaderValue) : MemoryTier :=
  match header.bind HeaderValue.toStr with
  | some "semantic" => .semantic
  | _ => .state

/-! ## Calls and answers -/

/-- A call of a route of `app`. -/
inductive HttpCall where
  | push (headers : HeaderMap) (req : PushRequest)
  | pull (headers : HeaderMap) (req : PullRequest)
  | promote (headers : HeaderMap) (req : PromoteRequest)
  | retrieve (headers : HeaderMap) (req : RetrievalRequest)
  | health
  | ready

/-- What a call is answered. -/
inductive RouteReply where
  | tooManyRequests
  | badRequest
  | unauthorized
  | fault (fault : RequestFault)
  | push (response : PushResponse)
  | pull (response : PullResponse)
  | promote (response : PromoteResponse)
  | retrieve (response : RetrievalResponse)
  | health (status : String)
  | ready (status : String) (reason : Option String)
deriving DecidableEq

/-- The counters of `RangoMetrics` that the handlers move. -/
inductive Operation where
  | push
  | pull
  | promote
  | retrieval
deriving DecidableEq

/-- What one count of a counter is labelled with. -/
structure Measurement where
  operation : Operation
  tenantId : String
  nameSpace : String
  decision : String
deriving DecidableEq

/-- The counts of `RangoMetrics`. -/
abbrev RangoMetrics : Type := Measurement → ℕ

/-- A process that serves HTTP. The limiter is created by the first call. -/
structure Http (ω η : Type) where
  server : ServerState ω η
  tokens : String → Option AuthPrincipal
  metrics : Option RangoMetrics
  limiter : Option RateLimiter

namespace Http

variable {ω η : Type}

/-! ## Tokens -/

/-- `ServerState::add_token_with_tenant`. -/
def addTokenWithTenant (h : Http ω η) (token nodeId tenantId : String) : Http ω η :=
  { h with tokens := Function.update h.tokens token (some ⟨nodeId, tenantId⟩) }

/-- `ServerState::add_token`. -/
def addToken (h : Http ω η) (token nodeId : String) : Http ω η :=
  h.addTokenWithTenant token nodeId "default"

/-- `ServerState::validate_token`. -/
def validateToken (h : Http ω η) (authHeader : Option String) : Option AuthPrincipal :=
  (authHeader.bind (stripPrefix "Bearer ")).bind h.tokens

/-- `RangoMetrics::record_push`, `record_pull`, `record_promote` and `record_retrieval`, when there
are metrics. -/
def record (h : Http ω η) (x : Measurement) : Http ω η :=
  { h with metrics := h.metrics.map fun counts => Function.update counts x (counts x + 1) }

/-! ## Handlers -/

/-- The end of a handler: a response is counted, a status code is not. -/
def answer {α : Type} (h : Http ω η) (result : Except RequestFault α × ServerState ω η)
    (reply : α → RouteReply) (measure : α → Measurement) : RouteReply × Http ω η :=
  match result with
  | (.error fault, server) => (.fault fault, { h with server })
  | (.ok response, server) => (reply response, { h with server }.record (measure response))

/-- What the handlers do with a request: they check the version and the token, and let the state
answer under the principal of the token. -/
def authenticated {α : Type} (h : Http ω η) (headers : HeaderMap)
    (process : AuthPrincipal → Except RequestFault α × ServerState ω η) (reply : α → RouteReply)
    (measure : α → Measurement) : RouteReply × Http ω η :=
  if headers.getStr "X-Rango-Protocol-Version" ≠ some "1" then (.badRequest, h)
  else
    match h.validateToken (headers.getStr "Authorization") with
    | none => (.unauthorized, h)
    | some principal => h.answer (process principal) reply measure

section
variable [Formatting] [Surroundings] [Oplog ω] [Arithmetic] (cp : ControlPlane η)

/-- `handle_push`. -/
def handlePush (h : Http ω η) (headers : HeaderMap) (req : PushRequest) : RouteReply × Http ω η :=
  h.authenticated headers (h.server.processPush cp req) .push fun response =>
    ⟨.push, req.tenantId, req.nameSpace,
      if response.acceptedSeqs.isEmpty then "reject" else "allow"⟩

/-- `handle_pull`. -/
def handlePull (h : Http ω η) (headers : HeaderMap) (req : PullRequest) : RouteReply × Http ω η :=
  h.authenticated headers
    (fun principal => h.server.processPull cp req principal
      (parseReadTier (headers.get "X-Rango-Read-Tier"))) .pull fun response =>
    ⟨.pull, req.tenantId, req.nameSpace, if response.mutations.isEmpty then "empty" else "allow"⟩

/-- `handle_promote`. -/
def handlePromote (h : Http ω η) (headers : HeaderMap) (req : PromoteRequest) :
    RouteReply × Http ω η :=
  h.authenticated headers (h.server.processPromote cp req) .promote fun response =>
    ⟨.promote, req.tenantId, req.nameSpace,
      if response.acceptedSeqs.isEmpty then "reject" else "allow"⟩

/-- `handle_retrieval_read`. -/
def handleRetrievalRead (h : Http ω η) (headers : HeaderMap) (req : RetrievalRequest) :
    RouteReply × Http ω η :=
  h.authenticated headers (h.server.handleRetrievalRead req) .retrieve fun response =>
    ⟨.retrieval, req.tenantId, req.nameSpace,
      match response.status with
      | .healthy => "allow"
      | .degraded => "degraded"
      | .disabled => "unknown"⟩

/-- `handle_ready`. -/
def handleReady (h : Http ω η) : RouteReply :=
  match Oplog.latestSeq h.server.oplog with
  | .ok _ => .ready "ready" none
  | .error err => .ready "not_ready" (some err.display)

/-- The routes of `app`. -/
def route (h : Http ω η) : HttpCall → RouteReply × Http ω η
  | .push headers req => h.handlePush cp headers req
  | .pull headers req => h.handlePull cp headers req
  | .promote headers req => h.handlePromote cp headers req
  | .retrieve headers req => h.handleRetrievalRead headers req
  | .health => (.health "healthy", h)
  | .ready => (h.handleReady, h)

/-- The limiter's answer to a call, and the process with the limiter after it. -/
def limit (h : Http ω η) (opened now : ℕ) : Bool × Http ω η :=
  let limiter := h.limiter.getD (RateLimiter.new rateLimitBurst opened)
  ((limiter.check now).1, { h with limiter := some (limiter.check now).2 })

/-- `rate_limit_middleware` before the routes. The clock is read when the limiter is created and
when it is asked. -/
def serve (h : Http ω η) (opened now : ℕ) (call : HttpCall) : RouteReply × Http ω η :=
  if (h.limit opened now).1 then (h.limit opened now).2.route cp call
  else (.tooManyRequests, (h.limit opened now).2)

end
end Http

/-! ## Runs -/

/-- A call at an instant, a token that the embedder adds, or a new process on the same log, with
metrics or without. -/
inductive HttpEvent (η : Type) where
  | call (opened now : ℕ) (call : HttpCall)
  | addToken (token nodeId tenantId : String)
  | restart (hooks : η) (metrics : Bool)

namespace Http

variable {ω η : Type} [Formatting] [Surroundings] [Oplog ω] [Arithmetic] (cp : ControlPlane η)

/-- A process on a log, which knows no token yet. -/
def start (oplog : ω) (hooks : η) (tick : ℕ) (metrics : Bool) : Http ω η where
  server := .withControlPlane oplog hooks tick
  tokens _ := none
  metrics := if metrics then some fun _ => 0 else none
  limiter := none

/-- The process after an event. -/
def step (h : Http ω η) : HttpEvent η → Http ω η
  | .call opened now call => (h.serve cp opened now call).2
  | .addToken token nodeId tenantId => h.addTokenWithTenant token nodeId tenantId
  | .restart hooks metrics => start h.server.oplog hooks h.server.tick metrics

/-- The process after a sequence of events. -/
def run (h : Http ω η) (events : List (HttpEvent η)) : Http ω η := events.foldl (step cp) h

end Http
end Rango
