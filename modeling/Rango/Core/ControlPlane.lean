import Rango.Types.Governance

/-!
# The control plane

`ControlPlane` holds the hooks that decide on writes, reads and promotions. A hook may keep
state of its own: it takes the state `η` of all hooks and returns it with its answer. The
paths call the hooks in the order of the source.
-/

namespace Rango

/-- `WriteContext`. -/
structure WriteContext where
  tenantId : String
  nameSpace : String
  actor : String
  source : String
  tier : MemoryTier

/-- `ReadRequest`. -/
structure ReadRequest where
  tenantId : String
  nameSpace : String
  tier : MemoryTier
  limit : ℕ

/-- `PromotionRequest` of the control plane. -/
structure PromotionRequest where
  tenantId : String
  nameSpace : String
  source : MemoryTier
  target : MemoryTier
  candidateId : String

/-- `WritePayload`. -/
inductive WritePayload where
  | state (document : Document)
  | stateWithTrust (document : Document) (trustScore : F64)
  | event (envelope : EventEnvelope)
  | artifact (envelope : ArtifactEnvelope)
  | semantic (document : Document)

/-- `ControlPlane`: its hooks, over their state `η`. -/
structure ControlPlane (η : Type) where
  validate : WriteContext → WritePayload → η → GovernanceDecision × η
  score : WriteContext → WritePayload → η → F64 × η
  sanitize : PromotionRequest → WritePayload → η → WritePayload × η
  allowPromotion : PromotionRequest → WritePayload → η → GovernanceDecision × η
  allowRetrieval : ReadRequest → η → GovernanceDecision × η
  boundedContext : ReadRequest → List Document → η → List Document × η
  anomaly : String → GovernanceDecision → η → η
  auditSink : String → GovernanceDecision → η → η

namespace ControlPlane

/-- `ControlPlane::is_reject`. -/
def isReject (d : GovernanceDecision) : Bool := d.decision = .reject

/-- `ControlPlane::decision_label`. -/
def decisionLabel (d : GovernanceDecision) : String :=
  match d.decision with
  | .allow => "allow"
  | .sanitize => "sanitize"
  | .reject => "reject"

/-- `ControlPlane::reject`. -/
def reject (reason : String) : GovernanceDecision := ⟨.reject, reason⟩

/-- `ControlPlane::validate_semantic_promotion`. -/
def validateSemanticPromotion (request : PromotionRequest) : GovernanceDecision :=
  if request.source = .episodic ∧ request.target = .semantic then
    ⟨.allow, "semantic_promotion_path_valid"⟩
  else ⟨.reject, "semantic_promotion_requires_episodic_to_semantic"⟩

section
variable [Formatting]

/-- `ControlPlane::validate_write_payload`. -/
def validateWritePayload (payload : WritePayload) : Except GovernanceDecision Unit :=
  match payload with
  | .event e =>
    e.validate.mapError fun err => reject ("invalid_event_envelope:" ++ err)
  | .artifact a =>
    a.validate.mapError fun err => reject ("invalid_artifact_envelope:" ++ err)
  | .stateWithTrust _ trustScore =>
    if trustScore.isFinite && trustScore.inUnit then .ok ()
    else .error (reject ("invalid_trust_score:" ++ Formatting.f64Display trustScore))
  | _ => .ok ()

/-- `ControlPlane::validate_read_request`. -/
def validateReadRequest (request : ReadRequest) : Except GovernanceDecision Unit :=
  if request.tenantId = "" then .error (reject "invalid_read_request:empty_tenant_id")
  else if request.nameSpace = "" then .error (reject "invalid_read_request:empty_namespace")
  else if request.limit = 0 then
    .error (reject "invalid_read_request:limit_must_be_positive")
  else .ok ()

variable {η : Type} (cp : ControlPlane η)

/-- What follows every decision of a path: the audit sink, then the anomaly hook. -/
def signal (stage : String) (d : GovernanceDecision) (hooks : η) : η :=
  cp.anomaly stage d (cp.auditSink stage d hooks)

/-- The decision on a trust score that is in range. -/
def trustDecision (trust : F64) : GovernanceDecision :=
  if trust.lt F64.quarter then
    ⟨.reject, "trust_score_below_threshold:" ++ Formatting.f64Display2 trust⟩
  else ⟨.allow, "trust_score:" ++ Formatting.f64Display2 trust⟩

/-- `ControlPlane::write_path`. -/
def writePath (ctx : WriteContext) (payload : WritePayload) (hooks : η) :
    GovernanceDecision × η :=
  let (validation, hooks) := cp.validate ctx payload hooks
  let hooks := cp.signal "write.validate" validation hooks
  if isReject validation then (validation, hooks)
  else
    match validateWritePayload payload with
    | .error d => (d, cp.signal "write.payload" d hooks)
    | .ok () =>
      let (trust, hooks) := cp.score ctx payload hooks
      let d :=
        if trust.isFinite && trust.inUnit then trustDecision trust
        else reject ("invalid_trust_score:" ++ Formatting.f64Display trust)
      (d, cp.signal "write.trust" d hooks)

omit [Formatting] in
/-- `ControlPlane::read_path`. -/
def readPath (request : ReadRequest) (candidates : List Document) (hooks : η) :
    (GovernanceDecision × List Document) × η :=
  match validateReadRequest request with
  | .error d => ((d, []), cp.signal "read.gate" d hooks)
  | .ok () =>
    let (retrieval, hooks) := cp.allowRetrieval request hooks
    let hooks := cp.signal "read.gate" retrieval hooks
    if isReject retrieval then ((retrieval, []), hooks)
    else
      let (filtered, hooks) := cp.boundedContext request candidates hooks
      ((retrieval, filtered.take request.limit), hooks)

omit [Formatting] in
/-- `ControlPlane::promotion_path`. -/
def promotionPath (request : PromotionRequest) (payload : WritePayload) (hooks : η) :
    (GovernanceDecision × WritePayload) × η :=
  let semanticPath := validateSemanticPromotion request
  if isReject semanticPath then
    ((semanticPath, payload), cp.signal "promotion.path" semanticPath hooks)
  else
    let (sanitized, hooks) := cp.sanitize request payload hooks
    let (d, hooks) := cp.allowPromotion request sanitized hooks
    ((d, sanitized), cp.signal "promotion.gate" d hooks)

end

/-! ## The default hooks -/

/-- `NoopTrustScoringHook::score`. -/
def payloadTrust : WritePayload → F64
  | .stateWithTrust _ trustScore => trustScore
  | _ => F64.one

/-- `ControlPlane::default`: the no-op hooks, which keep no state. -/
def default : ControlPlane Unit where
  validate _ _ _ := (⟨.allow, "validation_pass"⟩, ())
  score _ payload _ := (payloadTrust payload, ())
  sanitize _ payload _ := (payload, ())
  allowPromotion _ _ _ := (⟨.allow, "promotion_allowed"⟩, ())
  allowRetrieval _ _ := (⟨.allow, "retrieval_allowed"⟩, ())
  boundedContext _ candidates _ := (candidates, ())
  anomaly _ _ _ := ()
  auditSink _ _ _ := ()

/-- The default write path lets a trust score from the unit interval pass exactly when it reaches
a quarter. -/
theorem writePath_default [Formatting] (ctx : WriteContext) (document : Document) {trust : F64}
    (h : trust.inUnit = true) :
    isReject (default.writePath ctx (.stateWithTrust document trust) ()).1 = false ↔
      F64.quarter.le trust = true := by
  have hscore : (trust.isFinite && trust.inUnit) = true := by
    rw [F64.isFinite_of_inUnit h, h]
    rfl
  have hdecision : (default.writePath ctx (.stateWithTrust document trust) ()).1 =
      trustDecision trust := by
    have hvalid : isReject ⟨.allow, "validation_pass"⟩ = false := rfl
    simp [writePath, default, hvalid, validateWritePayload, payloadTrust, hscore]
  rw [hdecision, F64.quarter_le_iff h, trustDecision]
  cases trust.lt F64.quarter with
  | true => simp [isReject]
  | false => simp [isReject]

/-- A read request that is turned down is turned down with a rejection. -/
theorem isReject_of_validateReadRequest {request : ReadRequest} {d : GovernanceDecision}
    (h : validateReadRequest request = .error d) : isReject d = true := by
  unfold validateReadRequest at h
  split_ifs at h
  all_goals
    obtain rfl := Except.error.inj h
    rfl

/-- A read path that does not turn its request down keeps what the bounded-context hook returns,
up to the limit. -/
theorem readPath_kept {η : Type} {cp : ControlPlane η} {request : ReadRequest}
    {candidates : List Document} {hooks : η}
    (h : isReject (cp.readPath request candidates hooks).1.1 = false) :
    (cp.readPath request candidates hooks).1.2 =
      (cp.boundedContext request candidates (cp.signal "read.gate"
        (cp.allowRetrieval request hooks).1 (cp.allowRetrieval request hooks).2)).1.take
          request.limit := by
  unfold readPath at h ⊢
  cases hvalid : validateReadRequest request with
  | error d => simp [hvalid, isReject_of_validateReadRequest hvalid] at h
  | ok u =>
    simp only [hvalid] at h ⊢
    split_ifs at h ⊢ with hretrieval
    · simp [hretrieval] at h
    · rfl

end ControlPlane
end Rango
