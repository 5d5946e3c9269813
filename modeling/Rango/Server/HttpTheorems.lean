import Rango.Server.Http
import Rango.Server.IsolationTheorems

/-!
# What the server does over HTTP

A call that passes the limiter, with the version of the protocol and a token that is known, is a
request under the principal of the token; all others leave the state as it is. So a run over HTTP
is a run of `ServerState` (`run_server`), and what a token is handed out was submitted under a
token of the same tenant (`token_isolation`). The counters count the answers (`run_metrics`).
-/

namespace Rango

/-! ## Requests -/

/-- The tokens that are known. -/
abbrev Tokens : Type := String → Option AuthPrincipal

/-- The principal of a call with these headers. -/
def authenticate (tokens : Tokens) (headers : HeaderMap) : Option AuthPrincipal :=
  if headers.getStr "X-Rango-Protocol-Version" = some "1" then
    ((headers.getStr "Authorization").bind (stripPrefix "Bearer ")).bind tokens
  else none

/-- The request that a call makes. -/
def HttpCall.request {η : Type} (tokens : Tokens) : HttpCall → Option (ServerEvent η)
  | .push headers req => (authenticate tokens headers).map (.push req)
  | .pull headers req => (authenticate tokens headers).map fun principal =>
      .pull req principal (parseReadTier (headers.get "X-Rango-Read-Tier"))
  | .promote headers req => (authenticate tokens headers).map (.promote req)
  | .retrieve headers req => (authenticate tokens headers).map (.retrieve req)
  | .health | .ready => none

/-- The tokens after an event. A new process knows none. -/
def HttpEvent.tokens {η : Type} (tokens : Tokens) : HttpEvent η → Tokens
  | .call .. => tokens
  | .addToken token nodeId tenantId => Function.update tokens token (some ⟨nodeId, tenantId⟩)
  | .restart .. => fun _ => none

/-- The tokens that are known after the events. -/
def knownTokens {η : Type} (events : List (HttpEvent η)) : Tokens :=
  events.foldl HttpEvent.tokens fun _ => none

/-- The event is a call that submits the mutation under a token of the tenant. -/
def HttpEvent.Submits {η : Type} (tokens : Tokens) (tenantId : String) (m : Mutation)
    (ev : HttpEvent η) : Prop :=
  ∃ opened now call, ev = .call opened now call ∧
    ∃ req : ServerEvent η, call.request tokens = some req ∧ req.Submits tenantId m

namespace Http

section
variable {ω η α : Type} {h : Http ω η} {headers : HeaderMap}
  {process : AuthPrincipal → Except RequestFault α × ServerState ω η} {reply : α → RouteReply}
  {measure : α → Measurement}

@[simp] lemma record_server (h : Http ω η) (x : Measurement) : (h.record x).server = h.server := rfl
@[simp] lemma record_tokens (h : Http ω η) (x : Measurement) : (h.record x).tokens = h.tokens := rfl

lemma answer_server (result : Except RequestFault α × ServerState ω η) :
    (h.answer result reply measure).2.server = result.2 := by
  rcases result with ⟨fault | response, server⟩
  · rfl
  · rfl

lemma answer_tokens (result : Except RequestFault α × ServerState ω η) :
    (h.answer result reply measure).2.tokens = h.tokens := by
  rcases result with ⟨fault | response, server⟩
  · rfl
  · rfl

/-- A handler does nothing for a call that is not authenticated. -/
lemma authenticated_none (hauth : authenticate h.tokens headers = none) :
    (h.authenticated headers process reply measure).2 = h ∧
      ((h.authenticated headers process reply measure).1 = .badRequest ∨
        (h.authenticated headers process reply measure).1 = .unauthorized) := by
  unfold authenticate at hauth
  unfold authenticated validateToken
  by_cases hversion : headers.getStr "X-Rango-Protocol-Version" = some "1"
  · rw [if_pos hversion] at hauth
    rw [if_neg (not_not.mpr hversion), hauth]
    exact ⟨rfl, .inr rfl⟩
  · rw [if_pos hversion]
    exact ⟨rfl, .inl rfl⟩

/-- For all others it lets the state answer. -/
lemma authenticated_some {principal : AuthPrincipal}
    (hauth : authenticate h.tokens headers = some principal) :
    h.authenticated headers process reply measure =
      h.answer (process principal) reply measure := by
  unfold authenticate at hauth
  unfold authenticated validateToken
  split_ifs at hauth with hversion
  rw [if_neg (not_not.mpr hversion), hauth]

/-- Either way it leaves the state that the request leaves. -/
lemma authenticated_server :
    (h.authenticated headers process reply measure).2.server =
      ((authenticate h.tokens headers).map fun principal => (process principal).2).getD
        h.server := by
  cases hauth : authenticate h.tokens headers with
  | none => rw [(authenticated_none hauth).1]; rfl
  | some principal => rw [authenticated_some hauth, answer_server]; rfl

lemma authenticated_tokens :
    (h.authenticated headers process reply measure).2.tokens = h.tokens := by
  cases hauth : authenticate h.tokens headers with
  | none => rw [(authenticated_none hauth).1]
  | some principal => rw [authenticated_some hauth, answer_tokens]

end

section
variable {ω η : Type} [Formatting] [Surroundings] [Oplog ω] [Arithmetic] (cp : ControlPlane η)

/-! ## Runs -/

lemma route_server (h : Http ω η) (call : HttpCall) :
    (h.route cp call).2.server = h.server.run cp (call.request h.tokens).toList := by
  cases call with
  | push headers req =>
    refine authenticated_server.trans ?_
    rw [HttpCall.request]
    cases authenticate h.tokens headers with
    | none => rfl
    | some principal => rfl
  | pull headers req =>
    refine authenticated_server.trans ?_
    rw [HttpCall.request]
    cases authenticate h.tokens headers with
    | none => rfl
    | some principal => rfl
  | promote headers req =>
    refine authenticated_server.trans ?_
    rw [HttpCall.request]
    cases authenticate h.tokens headers with
    | none => rfl
    | some principal => rfl
  | retrieve headers req =>
    refine authenticated_server.trans ?_
    rw [HttpCall.request]
    cases authenticate h.tokens headers with
    | none => rfl
    | some principal => rfl
  | health => rfl
  | ready => rfl

lemma route_tokens (h : Http ω η) (call : HttpCall) : (h.route cp call).2.tokens = h.tokens := by
  cases call with
  | push | pull | promote | retrieve => exact authenticated_tokens
  | health | ready => rfl

/-- What an event has the state of the server do. -/
def request (h : Http ω η) : HttpEvent η → Option (ServerEvent η)
  | .call opened now call => if (h.limit opened now).1 then call.request h.tokens else none
  | .addToken .. => none
  | .restart hooks _ => some (.restart hooks)

/-- What a sequence of events has the state of the server do. -/
def requests (h : Http ω η) : List (HttpEvent η) → List (ServerEvent η)
  | [] => []
  | ev :: rest => (h.request ev).toList ++ (h.step cp ev).requests rest

lemma step_server (h : Http ω η) (ev : HttpEvent η) :
    (h.step cp ev).server = h.server.run cp (h.request ev).toList := by
  cases ev with
  | call opened now call =>
    rw [step, serve, request]
    split_ifs with hlimit
    · exact route_server cp _ call
    · rfl
  | addToken token nodeId tenantId => rfl
  | restart hooks metrics => rfl

lemma step_tokens (h : Http ω η) (ev : HttpEvent η) :
    (h.step cp ev).tokens = ev.tokens h.tokens := by
  cases ev with
  | call opened now call =>
    rw [step, serve]
    split_ifs with hlimit
    · exact route_tokens cp _ call
    · rfl
  | addToken token nodeId tenantId => rfl
  | restart hooks metrics => rfl

/-- **Runs over HTTP** are runs of the requests that are authenticated. -/
theorem run_server (h : Http ω η) (events : List (HttpEvent η)) :
    (h.run cp events).server = h.server.run cp (h.requests cp events) := by
  induction events generalizing h with
  | nil => rfl
  | cons ev rest ih =>
    rw [run, List.foldl_cons, requests, ServerState.run, List.foldl_append]
    refine (ih (h.step cp ev)).trans ?_
    rw [step_server]
    rfl

lemma run_tokens (h : Http ω η) (events : List (HttpEvent η)) :
    (h.run cp events).tokens = events.foldl HttpEvent.tokens h.tokens := by
  induction events generalizing h with
  | nil => rfl
  | cons ev rest ih =>
    rw [run, List.foldl_cons, List.foldl_cons, ← step_tokens cp]
    exact ih (h.step cp ev)

/-- Each of the requests is made by an event, with the tokens that are known then. -/
lemma mem_requests {h : Http ω η} {events : List (HttpEvent η)} {req : ServerEvent η}
    (hreq : req ∈ h.requests cp events) : ∃ before ev after, events = before ++ ev :: after ∧
      (h.run cp before).request ev = some req := by
  induction events generalizing h with
  | nil => exact absurd hreq List.not_mem_nil
  | cons ev rest ih =>
    rcases List.mem_append.mp hreq with hfirst | hrest
    · exact ⟨[], ev, rest, rfl, Option.mem_toList.mp hfirst⟩
    · obtain ⟨before, ev', after, rfl, hev'⟩ := ih hrest
      exact ⟨ev :: before, ev', after, rfl, hev'⟩

end

/-! ## Isolation by token -/

section
variable {ω η : Type} [LogOplog ω] [Formatting] [Surroundings] [Arithmetic] (cp : ControlPlane η)

omit [LogOplog ω] in
/-- What the answer to a pull comes from. -/
lemma pull_of_serve [Oplog ω] {h : Http ω η} {opened now : ℕ} {headers : HeaderMap}
    {req : PullRequest} {resp : PullResponse}
    (hreply : (h.serve cp opened now (.pull headers req)).1 = .pull resp) :
    ∃ principal, authenticate h.tokens headers = some principal ∧
      (h.server.processPull cp req principal
        (parseReadTier (headers.get "X-Rango-Read-Tier"))).1 = .ok resp := by
  unfold serve at hreply
  split_ifs at hreply with hlimit
  have hroute : ((h.limit opened now).2.authenticated headers
      (fun principal => h.server.processPull cp req principal
        (parseReadTier (headers.get "X-Rango-Read-Tier"))) .pull fun response =>
      ⟨.pull, req.tenantId, req.nameSpace,
        if response.mutations.isEmpty then "empty" else "allow"⟩).1 = .pull resp := hreply
  cases hauth : authenticate h.tokens headers with
  | none =>
    rcases (authenticated_none (h := (h.limit opened now).2) hauth).2 with hbad | hunauthorized
    · rw [hbad] at hroute
      cases hroute
    · rw [hunauthorized] at hroute
      cases hroute
  | some principal =>
    refine ⟨principal, rfl, ?_⟩
    rw [authenticated_some (h := (h.limit opened now).2) hauth] at hroute
    rcases hpull : h.server.processPull cp req principal
      (parseReadTier (headers.get "X-Rango-Read-Tier")) with ⟨fault | response, server⟩
    · rw [hpull] at hroute
      cases hroute
    · rw [hpull] at hroute
      obtain rfl := RouteReply.pull.inj hroute
      rfl

/-- **Isolation by token.** A process is started on an empty log. In every run of calls with any
headers, of new tokens and of new processes on the same log, a pull that is answered comes with a
token that is known then. All that it is handed out names the tenant of the token and the namespace
of the request, and was submitted by a call with a token that was known at that time and was of the
same tenant. -/
theorem token_isolation {oplog : ω} (hempty : toEntries oplog = []) (hooks : η) (tick : ℕ)
    (metrics : Bool) (events : List (HttpEvent η)) {opened now : ℕ} {headers : HeaderMap}
    {req : PullRequest} {resp : PullResponse}
    (hreply : (((start oplog hooks tick metrics).run cp events).serve cp opened now
      (.pull headers req)).1 = .pull resp) :
    ∃ principal, authenticate (knownTokens events) headers = some principal ∧
      ∀ m ∈ resp.mutations, m.metadata.tenantId = principal.tenantId ∧
        m.metadata.nameSpace = req.nameSpace ∧
        ∃ before ev after, events = before ++ ev :: after ∧
          ∃ submitted, ev.Submits (knownTokens before) principal.tenantId submitted ∧
            m = annotateMutationForReadTier submitted
              (parseReadTier (headers.get "X-Rango-Read-Tier")) := by
  obtain ⟨principal, hauth, hpull⟩ := pull_of_serve cp hreply
  rw [run_tokens] at hauth
  refine ⟨principal, hauth, fun m hm => ?_⟩
  obtain ⟨htenant, e, he, hscope, -, rfl⟩ :=
    ServerState.mem_processPull (Prod.fst_eq_iff.mp hpull) hm
  obtain ⟨hscopeTenant, hnamespace, htype⟩ := ServerState.scope_of_inPullScope hscope
  have howner : e.mutation.metadata.tenantId = principal.tenantId := hscopeTenant.trans htenant.symm
  rw [annotateMutationForReadTier_metadata]
  refine ⟨howner, hnamespace, ?_⟩
  rw [run_server] at he
  rcases ServerState.run_provenance cp hempty hooks tick _ he with haudit | ⟨r, hr, hsubmits⟩
  · exact absurd haudit htype
  · obtain ⟨before, ev, after, hsplit, hev⟩ := mem_requests cp hr
    refine ⟨before, ev, after, hsplit, e.mutation, ?_, rfl⟩
    rw [howner] at hsubmits
    cases ev with
    | call opened' now' call =>
      rw [request] at hev
      split_ifs at hev with hlimit
      rw [run_tokens] at hev
      exact ⟨opened', now', call, rfl, r, hev, hsubmits⟩
    | addToken token nodeId tenantId => cases hev
    | restart hooks' metrics' =>
      obtain rfl := Option.some.inj hev
      exact hsubmits.elim

end

/-! ## Metrics -/

section
variable {ω η : Type}

/-- The metrics with one more count. -/
def counted (metrics : Option RangoMetrics) (x : Option Measurement) : Option RangoMetrics :=
  match x with
  | none => metrics
  | some x => metrics.map fun counts => Function.update counts x (counts x + 1)

/-- A handler counts what it answers with a response. -/
lemma authenticated_metrics {α : Type} {h : Http ω η} {headers : HeaderMap}
    {process : AuthPrincipal → Except RequestFault α × ServerState ω η} {reply : α → RouteReply}
    {measure : α → Measurement} {measured : RouteReply → Option Measurement}
    (hresponse : ∀ response, measured (reply response) = some (measure response))
    (hbad : measured .badRequest = none) (hunauthorized : measured .unauthorized = none)
    (hfault : ∀ fault, measured (.fault fault) = none) :
    (h.authenticated headers process reply measure).2.metrics =
      counted h.metrics (measured (h.authenticated headers process reply measure).1) := by
  cases hauth : authenticate h.tokens headers with
  | none =>
    obtain ⟨hsame, hreply⟩ :=
      @authenticated_none _ _ _ h headers process reply measure hauth
    rw [hsame]
    rcases hreply with hreply | hreply
    · rw [hreply, hbad]
      rfl
    · rw [hreply, hunauthorized]
      rfl
  | some principal =>
    rw [authenticated_some hauth]
    rcases process principal with ⟨fault | response, server⟩
    · rw [answer, hfault]
      rfl
    · rw [answer, hresponse]
      rfl

end

end Http

/-- What is counted of a call with its answer. -/
def HttpCall.measurement : HttpCall → RouteReply → Option Measurement
  | .push _ req, .push response => some ⟨.push, req.tenantId, req.nameSpace,
      if response.acceptedSeqs.isEmpty then "reject" else "allow"⟩
  | .pull _ req, .pull response => some ⟨.pull, req.tenantId, req.nameSpace,
      if response.mutations.isEmpty then "empty" else "allow"⟩
  | .promote _ req, .promote response => some ⟨.promote, req.tenantId, req.nameSpace,
      if response.acceptedSeqs.isEmpty then "reject" else "allow"⟩
  | .retrieve _ req, .retrieve response => some ⟨.retrieval, req.tenantId, req.nameSpace,
      match response.status with
      | .healthy => "allow"
      | .degraded => "degraded"
      | .disabled => "unknown"⟩
  | _, _ => none

namespace Http

section
variable {ω η : Type} [Formatting] [Surroundings] [Oplog ω] [Arithmetic] (cp : ControlPlane η)

lemma serve_metrics (h : Http ω η) (opened now : ℕ) (call : HttpCall) :
    (h.serve cp opened now call).2.metrics =
      counted h.metrics (call.measurement (h.serve cp opened now call).1) := by
  unfold serve
  split_ifs with hlimit
  · cases call with
    | push headers req =>
      exact authenticated_metrics (fun _ => rfl) rfl rfl fun _ => rfl
    | pull headers req =>
      exact authenticated_metrics (fun _ => rfl) rfl rfl fun _ => rfl
    | promote headers req =>
      exact authenticated_metrics (fun _ => rfl) rfl rfl fun _ => rfl
    | retrieve headers req =>
      exact authenticated_metrics (fun _ => rfl) rfl rfl fun _ => rfl
    | health => rfl
    | ready => rfl
  · cases call with
    | push | pull | promote | retrieve | health | ready => rfl

/-- The calls of a run, each with its answer. -/
def answers (h : Http ω η) : List (HttpEvent η) → List (HttpCall × RouteReply)
  | [] => []
  | .call opened now call :: rest =>
    (call, (h.serve cp opened now call).1) :: (h.step cp (.call opened now call)).answers rest
  | ev :: rest => (h.step cp ev).answers rest

/-- **The counters count the answers.** After every run of one process, each counter has grown by
the number of calls with its labels that were answered with a response. -/
theorem run_metrics (h : Http ω η) {events : List (HttpEvent η)}
    (hprocess : ∀ hooks metrics, .restart hooks metrics ∉ events) (x : Measurement) :
    (h.run cp events).metrics.map (fun counts => counts x) =
      h.metrics.map fun counts => counts x +
        (h.answers cp events).countP fun answer => answer.1.measurement answer.2 = some x := by
  induction events generalizing h with
  | nil => rfl
  | cons ev rest ih =>
    have hrest := fun h : Http ω η => ih h fun hooks metrics hmem =>
      hprocess hooks metrics (List.mem_cons_of_mem _ hmem)
    refine (hrest (h.step cp ev)).trans ?_
    cases ev with
    | call opened now call =>
      rw [answers, List.countP_cons, step, serve_metrics]
      dsimp only
      cases hmeasure : call.measurement (h.serve cp opened now call).1 with
      | none => simp [counted]
      | some y =>
        by_cases hxy : y = x
        · subst hxy
          simp [counted, Function.comp_def, Nat.add_assoc, Nat.add_comm]
        · have hyx : x ≠ y := Ne.symm hxy
          simp [counted, Function.comp_def, hxy, Function.update_of_ne hyx]
    | addToken token nodeId tenantId => rfl
    | restart hooks metrics => exact absurd List.mem_cons_self (hprocess hooks metrics)

end
end Http

section
attribute [local instance] Formatting.sample Surroundings.sample Arithmetic.sample

/-- The headers of a client with a token. -/
def sampleHeaders (token : String) : HeaderMap :=
  [("x-rango-protocol-version", "1".toUTF8.toList),
    ("authorization", ("Bearer " ++ token).toUTF8.toList)]

/-- Two tenants with a token each, of which one pushes to its namespace. -/
def sampleHttpEvents : List (HttpEvent Unit) :=
  [.addToken "secret" "node" "tenant", .addToken "hidden" "node" "other",
    .call 0 0 (.push (sampleHeaders "secret") (samplePush [sampleClientInsert]))]

/-- It pulls what it has pushed. -/
theorem Http.token_isolation_sample :
    (((Http.start MemLog.new () 0 true).run .default sampleHttpEvents).serve .default 0 0
      (.pull (sampleHeaders "secret") samplePull)).1 =
        .pull ⟨[sampleClientInsert], 2, [⟨.allow, "retrieval_allowed"⟩]⟩ ∧
    ∃ principal, authenticate (knownTokens sampleHttpEvents) (sampleHeaders "secret") =
        some principal ∧
      ∀ m ∈ [sampleClientInsert], m.metadata.tenantId = principal.tenantId ∧
        m.metadata.nameSpace = samplePull.nameSpace ∧
        ∃ before ev after, sampleHttpEvents = before ++ ev :: after ∧
          ∃ submitted, ev.Submits (knownTokens before) principal.tenantId submitted ∧
            m = annotateMutationForReadTier submitted
              (parseReadTier ((sampleHeaders "secret").get "X-Rango-Read-Tier")) := by
  have hreply : (((Http.start MemLog.new () 0 true).run .default sampleHttpEvents).serve .default
      0 0 (.pull (sampleHeaders "secret") samplePull)).1 =
        .pull ⟨[sampleClientInsert], 2, [⟨.allow, "retrieval_allowed"⟩]⟩ := by decide +kernel
  exact ⟨hreply, Http.token_isolation .default MemLog.toEntries_new () 0 true sampleHttpEvents
    hreply⟩

/-- The accepted push is counted. -/
theorem Http.run_metrics_sample :
    ((Http.start MemLog.new () 0 true).run .default sampleHttpEvents).metrics.map
        (fun counts => counts ⟨.push, "tenant", "c", "allow"⟩) =
      (Http.start MemLog.new () 0 true : Http MemLog Unit).metrics.map fun counts =>
        counts ⟨.push, "tenant", "c", "allow"⟩ +
          ((Http.start MemLog.new () 0 true).answers .default sampleHttpEvents).countP fun answer =>
            answer.1.measurement answer.2 = some ⟨.push, "tenant", "c", "allow"⟩ :=
  Http.run_metrics .default (Http.start MemLog.new () 0 true)
    (fun hooks metrics => by simp [sampleHttpEvents]) _

end
end Rango
