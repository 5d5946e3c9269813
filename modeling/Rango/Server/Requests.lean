import Rango.Server.Atomic

/-!
# All requests in atomic steps

`Atomic` has pushes and pulls as programs over the atomic steps. Here are promotions, which call
one more hook (`RequestOp`), and retrievals, and with them the program of every request. Run
alone, it is the request as a function (`Atomic.run_program`). `ServerState.trace` lists the
steps that a sequence of requests takes, each with the state that it finds.
-/

namespace Rango

open Interleaving

/-- The atomic steps of all requests. -/
inductive RequestOp where
  | server (o : ServerOp)
  | promotionPath (request : PromotionRequest) (payload : WritePayload)

/-- What an atomic step answers. -/
@[reducible] def RequestOp.Res : RequestOp → Type
  | .server o => o.Res
  | .promotionPath .. => GovernanceDecision × WritePayload

/-- A request as a program over these steps. -/
abbrev RequestProg (α : Type) : Type := Prog RequestOp.Res α

/-- One atomic step. -/
def ServerState.performRequest {ω η : Type} [Surroundings] [Oplog ω] [Formatting]
    (cp : ControlPlane η) : (o : RequestOp) → ServerState ω η → o.Res × ServerState ω η
  | .server o, st => st.perform cp o
  | .promotionPath request payload, st =>
    ((cp.promotionPath request payload st.hooks).1,
      st.withHooks (cp.promotionPath request payload st.hooks).2)

/-! ## Promotions and retrievals -/

namespace Atomic

/-- A program that calls no promotion hook. -/
def lift {α : Type} (p : ServerProg α) : RequestProg α := p.embed RequestOp.server fun _ r => r

/-- The program of a call of `promotion_path`. -/
def askPromotion (request : PromotionRequest) (payload : WritePayload) :
    RequestProg (GovernanceDecision × WritePayload) :=
  Prog.request (RequestOp.promotionPath request payload)

section
variable [Formatting]

/-- The end of `process_promote` for a refused promotion. -/
def promoteRefused (req : PromoteRequest) (d : GovernanceDecision) :
    ServerProg (Except RequestFault PromoteResponse) := do
  settle "promotion" req.tenantId req.nameSpace (some req.mutation.writeId) d
  let newCheckpoint ← ask (.checkpoint req.tenantId req.nameSpace)
  pure (.ok { acceptedSeqs := [], newCheckpoint, rejectedCount := 1, audit := [d] })

/-- `process_promote` behind the decision of the control plane and of containment. -/
def promoteDecided (req : PromoteRequest) (d : GovernanceDecision) :
    ServerProg (Except RequestFault PromoteResponse) :=
  if d.decision ≠ .allow then promoteRefused req d
  else do
    settle "promotion" req.tenantId req.nameSpace (some req.mutation.writeId) d
    match ← appendMutation req.mutation req.tenantId req.nameSpace with
    | .error _ => pure (.error .internalServerError)
    | .ok seq =>
      let newCheckpoint ← ask (.checkpoint req.tenantId req.nameSpace)
      pure (.ok { acceptedSeqs := [seq], newCheckpoint, rejectedCount := 0, audit := [d] })

/-- `process_promote` behind the decision of the control plane. -/
def promoteGated (req : PromoteRequest) (d : GovernanceDecision) :
    ServerProg (Except RequestFault PromoteResponse) := do
  let containment ← ask (.containmentGate req.tenantId req.nameSpace)
  promoteDecided req (containment.getD d)

/-- The payload that `process_promote` puts to the control plane. -/
def promotionPayload (req : PromoteRequest) : WritePayload :=
  .stateWithTrust (req.mutation.patch.getD Document.empty) req.mutation.metadata.trustScore

/-- `process_promote` behind the checks of the request and its mutation. -/
def promoteChecked (req : PromoteRequest) :
    RequestProg (Except RequestFault PromoteResponse) :=
  let semanticPath := ControlPlane.validateSemanticPromotion (ServerState.promotionRequest req)
  if ControlPlane.isReject semanticPath then lift (promoteRefused req semanticPath)
  else do
    let (d, _) ← askPromotion (ServerState.promotionRequest req) (promotionPayload req)
    lift (promoteGated req d)

/-- A promotion that is refused and counted as one across tenants. -/
def promoteCrossTenant (req : PromoteRequest) (reason : String) :
    ServerProg (Except RequestFault PromoteResponse) := do
  ask .countCrossTenantRejection
  promoteRefused req (ControlPlane.reject reason)

/-- `ServerState::process_promote`. -/
def processPromote (req : PromoteRequest) (principal : AuthPrincipal) :
    RequestProg (Except RequestFault PromoteResponse) :=
  if req.nodeId ≠ principal.nodeId then lift do
    ask .countNonOwnerRejection
    promoteRefused req (ControlPlane.reject "node_mismatch")
  else if req.tenantId ≠ principal.tenantId then lift (promoteCrossTenant req "tenant_mismatch")
  else
    match req.mutation.validateMetadata with
    | .error err => lift (promoteRefused req (ControlPlane.reject ("invalid_metadata:" ++ err)))
    | .ok () =>
      if req.mutation.metadata.tenantId ≠ req.tenantId ∨
          req.mutation.metadata.nameSpace ≠ req.nameSpace then
        lift (promoteCrossTenant req "cross_tenant_or_namespace_mutation")
      else promoteChecked req

/-- `handle_retrieval_read` without an adapter. -/
def handleRetrievalRead (req : RetrievalRequest) (principal : AuthPrincipal) :
    ServerProg (Except RequestFault RetrievalResponse) :=
  if principal.tenantId ≠ req.tenantId then pure (.error .forbidden)
  else do
    let d : GovernanceDecision := ⟨.sanitize, "adapter_unavailable"⟩
    ask (.registerDecisionOutcome req.tenantId req.nameSpace d)
    let _ ← persistAuditEvidence "retrieval" req.tenantId req.nameSpace none d
    pure (.ok ⟨.degraded, "adapter_unavailable", true⟩)

end
end Atomic

/-! ## Requests and their replies -/

/-- What an event is answered; a restart has no answer. -/
inductive ServerReply where
  | push (answer : Except RequestFault PushResponse)
  | pull (answer : Except RequestFault PullResponse)
  | promote (answer : Except RequestFault PromoteResponse)
  | retrieve (answer : Except RequestFault RetrievalResponse)
  | restarted
deriving DecidableEq

/-- The event is a request. -/
def ServerEvent.IsRequest {η : Type} : ServerEvent η → Prop
  | .restart _ => False
  | _ => True

/-- The program of a request. -/
def ServerEvent.program {η : Type} [Formatting] [Arithmetic] :
    ServerEvent η → RequestProg ServerReply
  | .push req principal => Prog.bind (Atomic.lift (Atomic.processPush req principal))
    fun answer => pure (.push answer)
  | .pull req principal readTier =>
    Prog.bind (Atomic.lift (Atomic.processPull req principal readTier))
      fun answer => pure (.pull answer)
  | .promote req principal => Prog.bind (Atomic.processPromote req principal)
    fun answer => pure (.promote answer)
  | .retrieve req principal => Prog.bind (Atomic.lift (Atomic.handleRetrievalRead req principal))
    fun answer => pure (.retrieve answer)
  | .restart _ => pure .restarted

namespace ServerState

variable {ω η : Type} [Formatting] [Surroundings] [Oplog ω] [Arithmetic] (cp : ControlPlane η)

/-- The answer to an event. -/
def respond (st : ServerState ω η) : ServerEvent η → ServerReply
  | .push req principal => .push (st.processPush cp req principal).1
  | .pull req principal readTier => .pull (st.processPull cp req principal readTier).1
  | .promote req principal => .promote (st.processPromote cp req principal).1
  | .retrieve req principal => .retrieve (st.handleRetrievalRead req principal).1
  | .restart _ => .restarted

/-- The steps of one event, each with the state that it finds. -/
def stepTrace (st : ServerState ω η) (ev : ServerEvent η) :
    List (RequestOp × ServerState ω η) :=
  ev.program.trace (performRequest cp) st

/-- The steps of a sequence of events. -/
def trace (st : ServerState ω η) : List (ServerEvent η) → List (RequestOp × ServerState ω η)
  | [] => []
  | ev :: rest => st.stepTrace cp ev ++ (st.step cp ev).trace rest

end ServerState

/-! ## Requests run alone -/

namespace Atomic

section
variable {ω η : Type} [Formatting] [Surroundings] [Oplog ω] (cp : ControlPlane η)
  (st : ServerState ω η)

@[simp] lemma run_lift {α : Type} (p : ServerProg α) :
    (lift p).run (ServerState.performRequest cp) st = p.run (ServerState.perform cp) st :=
  Prog.run_embed (fun _ _ => rfl) p st

lemma run_promoteRefused (req : PromoteRequest) (d : GovernanceDecision) :
    (promoteRefused req d).run (ServerState.perform cp) st = st.promoteRefused req d := by
  rw [promoteRefused, Prog.bind_eq, Prog.run_bind, run_settle]
  rfl

lemma run_promoteCrossTenant (req : PromoteRequest) (reason : String) :
    (promoteCrossTenant req reason).run (ServerState.perform cp) st =
      st.countCrossTenantRejection.promoteRefused req (ControlPlane.reject reason) :=
  run_promoteRefused cp st.countCrossTenantRejection req _

lemma run_promoteDecided (req : PromoteRequest) (d : GovernanceDecision) :
    (promoteDecided req d).run (ServerState.perform cp) st =
      if d.decision ≠ .allow then st.promoteRefused req d
      else
        match (st.settle "promotion" req.tenantId req.nameSpace (some req.mutation.writeId)
            d).appendMutation req.mutation req.tenantId req.nameSpace with
        | (.error _, st) => (.error .internalServerError, st)
        | (.ok seq, st) =>
          (.ok { acceptedSeqs := [seq]
                 newCheckpoint := st.scopedLatestCheckpoint req.tenantId req.nameSpace
                 rejectedCount := 0, audit := [d] }, st) := by
  unfold promoteDecided
  split_ifs with hallow
  · exact run_promoteRefused ..
  · rw [Prog.bind_eq, Prog.run_bind, run_settle, Prog.bind_eq, Prog.run_bind, run_appendMutation]
    rcases (st.settle "promotion" req.tenantId req.nameSpace (some req.mutation.writeId)
      d).appendMutation req.mutation req.tenantId req.nameSpace with ⟨err | seq, st'⟩
    · rfl
    · rfl

lemma run_promoteChecked (req : PromoteRequest) :
    (promoteChecked req).run (ServerState.performRequest cp) st = st.promoteChecked cp req := by
  unfold promoteChecked ServerState.promoteChecked
  dsimp only
  by_cases hpath : ControlPlane.isReject
      (ControlPlane.validateSemanticPromotion (ServerState.promotionRequest req)) = true
  · rw [if_pos hpath, if_pos hpath, run_lift, run_promoteRefused]
  · rw [if_neg hpath, if_neg hpath]
    show (lift (promoteGated req _)).run (ServerState.performRequest cp) (st.withHooks _) = _
    rw [run_lift, promoteGated, run_ask_bind, run_promoteDecided]
    rfl

/-- **Promotions.** Run alone, the program of a promotion is the promotion. -/
theorem run_processPromote (req : PromoteRequest) (principal : AuthPrincipal) :
    (processPromote req principal).run (ServerState.performRequest cp) st =
      st.processPromote cp req principal := by
  unfold processPromote ServerState.processPromote
  cases req.mutation.validateMetadata with
  | error err =>
    dsimp only
    split_ifs with hnode htenant
    · rw [run_lift]
      exact run_promoteRefused cp st.countNonOwnerRejection req _
    · rw [run_lift, run_promoteCrossTenant]
    · rw [run_lift, run_promoteRefused]
  | ok =>
    dsimp only
    split_ifs with hnode htenant hscope
    · rw [run_lift]
      exact run_promoteRefused cp st.countNonOwnerRejection req _
    · rw [run_lift, run_promoteCrossTenant]
    · rw [run_lift, run_promoteCrossTenant]
    · exact run_promoteChecked cp st req

lemma run_handleRetrievalRead (req : RetrievalRequest) (principal : AuthPrincipal) :
    (handleRetrievalRead req principal).run (ServerState.perform cp) st =
      st.handleRetrievalRead req principal := by
  unfold handleRetrievalRead ServerState.handleRetrievalRead
  split_ifs with htenant
  · rfl
  · rw [run_ask_bind, Prog.bind_eq, Prog.run_bind, run_persistAuditEvidence]
    rfl

/-- **Requests.** Run alone, the program of a request gives its answer and leaves its state. -/
theorem run_program [Arithmetic] {ev : ServerEvent η} (hev : ev.IsRequest) :
    ev.program.run (ServerState.performRequest cp) st = (st.respond cp ev, st.step cp ev) := by
  cases ev with
  | push req principal =>
    rw [ServerEvent.program, Prog.run_bind, run_lift, run_processPush]
    rfl
  | pull req principal readTier =>
    rw [ServerEvent.program, Prog.run_bind, run_lift, run_processPull]
    rfl
  | promote req principal =>
    rw [ServerEvent.program, Prog.run_bind, run_processPromote]
    rfl
  | retrieve req principal =>
    rw [ServerEvent.program, Prog.run_bind, run_lift, run_handleRetrievalRead]
    rfl
  | restart hooks => exact hev.elim

end
end Atomic

namespace ServerState

section
variable {ω η : Type} [Formatting] [Surroundings] [Oplog ω] [Arithmetic] (cp : ControlPlane η)
  {st : ServerState ω η}

/-- The steps of a request lead to the state that it leaves. -/
lemma stepTrace_leads {ev : ServerEvent η} (hev : ev.IsRequest) :
    Prog.Leads (performRequest cp) st (st.stepTrace cp ev) (st.step cp ev) := by
  have h : Prog.Leads (performRequest cp) st _ _ := Prog.trace_leads ev.program st
  rwa [Atomic.run_program cp st hev] at h

/-- So do the steps of a run of requests. -/
theorem trace_leads {events : List (ServerEvent η)} (hevents : ∀ ev ∈ events, ev.IsRequest) :
    Prog.Leads (performRequest cp) st (st.trace cp events) (st.run cp events) := by
  induction events generalizing st with
  | nil => rfl
  | cons ev rest ih =>
    exact (stepTrace_leads cp (hevents ev List.mem_cons_self)).append
      (ih fun x hx => hevents x (List.mem_cons_of_mem _ hx))

end
end ServerState

/-! ## Protocols -/

/-- A protocol of the server's steps, in which the promotion hook may be called at any time. -/
def requestProtocol {Φ : Type} (P : Protocol Φ ServerOp.Res) : Protocol Φ RequestOp.Res where
  allowed
    | φ, .server o => P.allowed φ o
    | _, .promotionPath .. => True
  next
    | φ, .server o, r, ψ => P.next φ o r ψ
    | φ, .promotionPath .., _, ψ => ψ = φ

namespace Atomic

section
variable {Φ α : Type} {P : Protocol Φ ServerOp.Res} {φ : Φ} {post : Φ → α → Prop}

/-- A program keeps to its protocol among more steps. -/
lemma lift_follows {p : ServerProg α} (h : P.Follows post φ p) :
    (requestProtocol P).Follows post φ (lift p) := by
  induction p generalizing φ with
  | done a => exact h
  | call o next ih => exact ⟨h.1, fun r ψ hψ => ih r (h.2 r ψ hψ)⟩

/-- The reply to a request ends its program. -/
lemma reply_follows {f : α → ServerReply} {mid : Φ → ServerReply → Prop} {p : RequestProg α}
    (h : (requestProtocol P).Follows (fun ψ a => mid ψ (f a)) φ p) :
    (requestProtocol P).Follows mid φ (p.bind fun a => pure (f a)) :=
  h.bind fun _ _ hpost => hpost

end
end Atomic
end Rango
