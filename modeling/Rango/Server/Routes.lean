import Rango.Server.State

/-!
# The server's requests

`process_push`, `process_pull`, `process_promote` and the retrieval request, each on a state
and returning the response together with the state it leaves. `ServerState.run` is what a
sequence of requests leaves, with restarts of the server in between.
-/

namespace Rango

/-! ## The protocol -/

/-- `PushRequest`. -/
structure PushRequest where
  nodeId : String
  tenantId : String
  nameSpace : String
  mutations : List Mutation
  lastCheckpoint : ℕ
deriving DecidableEq

/-- `PushResponse`. -/
structure PushResponse where
  acceptedSeqs : List ℕ
  newCheckpoint : ℕ
  rejectedNonOwnerCount : ℕ
  rejectedCrossTenantCount : ℕ
  audit : List GovernanceDecision
deriving DecidableEq

/-- `PullRequest`. -/
structure PullRequest where
  nodeId : String
  tenantId : String
  nameSpace : String
  sinceCheckpoint : ℕ
deriving DecidableEq

/-- `PullResponse`. -/
structure PullResponse where
  mutations : List Mutation
  newCheckpoint : ℕ
  audit : List GovernanceDecision
deriving DecidableEq

/-- `PromoteRequest`. -/
structure PromoteRequest where
  nodeId : String
  tenantId : String
  nameSpace : String
  mutation : Mutation
  fromTier : MemoryTier
  toTier : MemoryTier
  candidateId : String
  lastCheckpoint : ℕ
deriving DecidableEq

/-- `PromoteResponse`. -/
structure PromoteResponse where
  acceptedSeqs : List ℕ
  newCheckpoint : ℕ
  rejectedCount : ℕ
  audit : List GovernanceDecision
deriving DecidableEq

/-- `RetrievalCapabilityRequest`, the fields the handler reads without an adapter. -/
structure RetrievalRequest where
  tenantId : String
  nameSpace : String
deriving DecidableEq

/-- `RetrievalStatus`. -/
inductive RetrievalStatus where
  | healthy
  | disabled
  | degraded
deriving DecidableEq

/-- `RetrievalCapabilityResponse`, whose candidates are none without an adapter. -/
structure RetrievalResponse where
  status : RetrievalStatus
  retrievalStatusReason : String
  canonicalFallback : Bool
deriving DecidableEq

/-- How a request ends that gets no response: with a status code, or in a panic. -/
inductive RequestFault where
  | internalServerError
  | forbidden
  | panic
deriving DecidableEq

/-! ## Candidates -/

def identitySeqField : String := "__rango_candidate_seq"
def identityWriteIdField : String := "__rango_candidate_write_id"

/-- `add_candidate_identity`. An entry without a patch is no candidate. -/
def addCandidateIdentity (e : OplogEntry) : Option Document :=
  e.mutation.patch.map fun patch =>
    (patch.insert identitySeqField (.int64 ((e.seq : ℤ).bmod (2 ^ 64)))).insert
      identityWriteIdField (.string e.mutation.writeId)

/-- `candidate_identity`. -/
def candidateIdentity (candidate : Document) : Option (ℕ × String) :=
  (candidate.getI64 identitySeqField).bind fun seq =>
    (candidate.getStr identityWriteIdField).map fun writeId => ((seq % 2 ^ 64).toNat, writeId)

/-- How often each identity occurs among the candidates. -/
def identityCounts (candidates : List Document) : ℕ × String → ℕ :=
  (candidates.filterMap candidateIdentity).foldl
    (fun counts key => Function.update counts key (counts key + 1)) fun _ => 0

/-- `mutation_visible_for_tier`. -/
def mutationVisibleForTier (m : Mutation) (tier : MemoryTier) : Bool :=
  match tier with
  | .semantic => m.metadata.type = "semantic_projection"
  | _ => m.metadata.type ≠ "semantic_projection"

/-- `annotate_mutation_for_read_tier`. -/
def annotateMutationForReadTier (m : Mutation) (tier : MemoryTier) : Mutation :=
  if tier = .semantic then
    { m with patch := m.patch.map fun patch =>
        (patch.insert "derived" (.boolean true)).insert "canonical" (.boolean false) }
  else m

/-- The loop of `process_pull` over the scoped entries: each takes one of the `counts` of its
identity. -/
def selectMutations (tier : MemoryTier) (counts : ℕ × String → ℕ) :
    List OplogEntry → List Mutation
  | [] => []
  | e :: rest =>
    if e.mutation.patch = none then selectMutations tier counts rest
    else
      let key := (e.seq, e.mutation.writeId)
      if 0 < counts key then
        annotateMutationForReadTier e.mutation tier ::
          selectMutations tier (Function.update counts key (counts key - 1)) rest
      else selectMutations tier counts rest

/-- The entries of a page that a pull considers. -/
def inPullScope (req : PullRequest) (tier : MemoryTier) (e : OplogEntry) : Bool :=
  e.mutation.metadata.tenantId = req.tenantId && e.mutation.metadata.nameSpace = req.nameSpace &&
    e.mutation.metadata.type ≠ auditType && mutationVisibleForTier e.mutation tier

/-- The number after a checkpoint, at `u64`. -/
def afterCheckpoint [Arithmetic] (since : ℕ) : Except RequestFault ℕ :=
  if since + 1 < 2 ^ 64 then .ok (since + 1)
  else if Arithmetic.overflowChecks then .error .panic
  else .ok ((since + 1) % 2 ^ 64)

/-- The entries that one pull reads at most. -/
def pageLimit : ℕ := 1000

/-- `normalize_write_decision`. -/
def normalizeWriteDecision (d : GovernanceDecision) : GovernanceDecision :=
  if d.decision = .reject ∧ "trust_score_below_threshold".toList <+: d.reason.toList then
    { d with reason := "poisoning_low_trust:" ++ d.reason }
  else d

/-! ## Push -/

/-- What became of one mutation of a push. -/
structure Pushed where
  accepted : Option ℕ
  crossTenant : Bool
  decision : GovernanceDecision
deriving DecidableEq

namespace ServerState

variable {ω η : Type} [Formatting] [Surroundings] [Oplog ω] (cp : ControlPlane η)

/-- The control plane's decision on one mutation of a push. -/
def writeDecision (st : ServerState ω η) (req : PushRequest) (m : Mutation) :
    GovernanceDecision × ServerState ω η :=
  let (d, hooks) := cp.writePath
    { tenantId := req.tenantId, nameSpace := req.nameSpace, actor := m.metadata.actor
      source := m.metadata.source, tier := .state }
    (.stateWithTrust (m.patch.getD Document.empty) m.metadata.trustScore) st.hooks
  (normalizeWriteDecision d, st.withHooks hooks)

/-- A mutation of a push that is refused with a decision. -/
def pushRefused (st : ServerState ω η) (req : PushRequest) (m : Mutation) (crossTenant : Bool)
    (d : GovernanceDecision) : Except RequestFault Pushed × ServerState ω η :=
  (.ok ⟨none, crossTenant, d⟩, st.settle "write" req.tenantId req.nameSpace (some m.writeId) d)

/-- The loop body of `process_push` behind the checks of the mutation. -/
def pushChecked (st : ServerState ω η) (req : PushRequest) (m : Mutation) :
    Except RequestFault Pushed × ServerState ω η :=
  match st.writeDecision cp req m with
  | (d, st) =>
    if ControlPlane.isReject d then st.pushRefused req m false d
    else
      match (st.settle "write" req.tenantId req.nameSpace (some m.writeId) d).appendMutation m
          req.tenantId req.nameSpace with
      | (.error _, st) => (.error .internalServerError, st)
      | (.ok seq, st) => (.ok ⟨some seq, false, d⟩, st)

/-- The loop body of `process_push`. -/
def pushMutation (st : ServerState ω η) (req : PushRequest) (m : Mutation) :
    Except RequestFault Pushed × ServerState ω η :=
  match st.containmentGate req.tenantId req.nameSpace with
  | (some d, st) => st.pushRefused req m false d
  | (none, st) =>
    match m.validateMetadata with
    | .error err =>
      st.pushRefused req m false (ControlPlane.reject ("invalid_metadata:" ++ err))
    | .ok () =>
      if m.metadata.tenantId ≠ req.tenantId ∨ m.metadata.nameSpace ≠ req.nameSpace then
        st.countCrossTenantRejection.pushRefused req m true
          (ControlPlane.reject "cross_tenant_or_namespace_mutation")
      else st.pushChecked cp req m

/-- The loop of `process_push`. It ends at the first mutation that is accepted and cannot be
appended. -/
def pushLoop (st : ServerState ω η) (req : PushRequest) :
    List Mutation → Except RequestFault (List Pushed) × ServerState ω η
  | [] => (.ok [], st)
  | m :: rest =>
    match st.pushMutation cp req m with
    | (.error fault, st) => (.error fault, st)
    | (.ok pushed, st) =>
      match pushLoop st req rest with
      | (.error fault, st) => (.error fault, st)
      | (.ok outcomes, st) => (.ok (pushed :: outcomes), st)

/-- `ServerState::process_push`. -/
def processPush (st : ServerState ω η) (req : PushRequest) (principal : AuthPrincipal) :
    Except RequestFault PushResponse × ServerState ω η :=
  if req.nodeId ≠ principal.nodeId then
    let d := ControlPlane.reject "node_mismatch"
    let st := st.countNonOwnerRejection.settle "write" req.tenantId req.nameSpace none d
    (.ok { acceptedSeqs := [], newCheckpoint := st.scopedLatestCheckpoint req.tenantId
             req.nameSpace
           rejectedNonOwnerCount := 1, rejectedCrossTenantCount := 0, audit := [d] }, st)
  else if req.tenantId ≠ principal.tenantId then
    let d := ControlPlane.reject "tenant_mismatch"
    let st := st.countCrossTenantRejection.settle "write" req.tenantId req.nameSpace none d
    (.ok { acceptedSeqs := [], newCheckpoint := st.scopedLatestCheckpoint req.tenantId
             req.nameSpace
           rejectedNonOwnerCount := 0, rejectedCrossTenantCount := 1, audit := [d] }, st)
  else
    match pushLoop cp st req req.mutations with
    | (.error fault, st) => (.error fault, st)
    | (.ok outcomes, st) =>
      (.ok { acceptedSeqs := outcomes.filterMap Pushed.accepted
             newCheckpoint := st.scopedLatestCheckpoint req.tenantId req.nameSpace
             rejectedNonOwnerCount := 0
             rejectedCrossTenantCount := outcomes.countP Pushed.crossTenant
             audit := outcomes.map Pushed.decision }, st)

/-! ## Pull -/

/-- What a pull reads: one page of the log after the checkpoint, then what is in scope. -/
def pullScoped [Arithmetic] (st : ServerState ω η) (req : PullRequest) (readTier : MemoryTier) :
    Except RequestFault (List OplogEntry) :=
  match afterCheckpoint req.sinceCheckpoint with
  | .error fault => .error fault
  | .ok first =>
    match Oplog.readSince first pageLimit st.oplog with
    | .error _ => .error .internalServerError
    | .ok entries => .ok (entries.filter (inPullScope req readTier))

/-- The decision on a pull and the candidates that the control plane leaves. Containment
overrides the decision of the control plane. -/
def readDecision (st : ServerState ω η) (req : PullRequest) (readTier : MemoryTier)
    (scopedEntries : List OplogEntry) :
    (GovernanceDecision × List Document) × ServerState ω η :=
  let ((d, filtered), hooks) := cp.readPath
    { tenantId := req.tenantId, nameSpace := req.nameSpace, tier := readTier, limit := pageLimit }
    (scopedEntries.filterMap addCandidateIdentity) st.hooks
  let (containment, st) := (st.withHooks hooks).containmentGate req.tenantId req.nameSpace
  ((containment.getD d, filtered), st)

/-- The end of `process_pull`: the decision is recorded and the mutations returned. -/
def pullAnswered (st : ServerState ω η) (req : PullRequest) (d : GovernanceDecision)
    (mutations : List Mutation) : Except RequestFault PullResponse × ServerState ω η :=
  let st := st.settle "read" req.tenantId req.nameSpace none d
  (.ok { mutations, newCheckpoint := st.scopedLatestCheckpoint req.tenantId req.nameSpace
         audit := [d] }, st)

/-- `ServerState::process_pull`. -/
def processPull [Arithmetic] (st : ServerState ω η) (req : PullRequest)
    (principal : AuthPrincipal) (readTier : MemoryTier) :
    Except RequestFault PullResponse × ServerState ω η :=
  if principal.nodeId ≠ req.nodeId ∨ principal.tenantId ≠ req.tenantId then
    if principal.tenantId ≠ req.tenantId then
      st.countCrossTenantRejection.pullAnswered req (ControlPlane.reject "tenant_mismatch") []
    else st.pullAnswered req (ControlPlane.reject "node_mismatch") []
  else
    match st.pullScoped req readTier with
    | .error fault => (.error fault, st)
    | .ok scopedEntries =>
      match st.readDecision cp req readTier scopedEntries with
      | ((d, filtered), st) =>
        if ControlPlane.isReject d then st.pullAnswered req d []
        else
          st.pullAnswered req d (selectMutations readTier (identityCounts filtered) scopedEntries)

/-! ## Promote -/

/-- The control plane's decision on a promotion, which containment overrides. The sanitized
payload is not used. -/
def promotionDecision (st : ServerState ω η) (req : PromoteRequest) (request : PromotionRequest) :
    GovernanceDecision × ServerState ω η :=
  let ((d, _), hooks) := cp.promotionPath request
    (.stateWithTrust (req.mutation.patch.getD Document.empty) req.mutation.metadata.trustScore)
    st.hooks
  let (containment, st) := (st.withHooks hooks).containmentGate req.tenantId req.nameSpace
  (containment.getD d, st)

/-- The end of `process_promote` for a refused promotion. -/
def promoteRefused (st : ServerState ω η) (req : PromoteRequest) (d : GovernanceDecision) :
    Except RequestFault PromoteResponse × ServerState ω η :=
  let st := st.settle "promotion" req.tenantId req.nameSpace (some req.mutation.writeId) d
  (.ok { acceptedSeqs := [], newCheckpoint := st.scopedLatestCheckpoint req.tenantId req.nameSpace
         rejectedCount := 1, audit := [d] }, st)

/-- The request that `process_promote` puts to the control plane. -/
def promotionRequest (req : PromoteRequest) : PromotionRequest where
  tenantId := req.tenantId
  nameSpace := req.nameSpace
  source := req.fromTier
  target := req.toTier
  candidateId := req.candidateId

/-- `process_promote` behind the checks of the request and its mutation. -/
def promoteChecked (st : ServerState ω η) (req : PromoteRequest) :
    Except RequestFault PromoteResponse × ServerState ω η :=
  let semanticPath := ControlPlane.validateSemanticPromotion (promotionRequest req)
  if ControlPlane.isReject semanticPath then st.promoteRefused req semanticPath
  else
    match st.promotionDecision cp req (promotionRequest req) with
    | (d, st) =>
      if d.decision ≠ .allow then st.promoteRefused req d
      else
        match (st.settle "promotion" req.tenantId req.nameSpace (some req.mutation.writeId)
            d).appendMutation req.mutation req.tenantId req.nameSpace with
        | (.error _, st) => (.error .internalServerError, st)
        | (.ok seq, st) =>
          (.ok { acceptedSeqs := [seq]
                 newCheckpoint := st.scopedLatestCheckpoint req.tenantId req.nameSpace
                 rejectedCount := 0, audit := [d] }, st)

/-- `ServerState::process_promote`. -/
def processPromote (st : ServerState ω η) (req : PromoteRequest) (principal : AuthPrincipal) :
    Except RequestFault PromoteResponse × ServerState ω η :=
  if req.nodeId ≠ principal.nodeId then
    st.countNonOwnerRejection.promoteRefused req (ControlPlane.reject "node_mismatch")
  else if req.tenantId ≠ principal.tenantId then
    st.countCrossTenantRejection.promoteRefused req (ControlPlane.reject "tenant_mismatch")
  else
    match req.mutation.validateMetadata with
    | .error err => st.promoteRefused req (ControlPlane.reject ("invalid_metadata:" ++ err))
    | .ok () =>
      if req.mutation.metadata.tenantId ≠ req.tenantId ∨
          req.mutation.metadata.nameSpace ≠ req.nameSpace then
        st.countCrossTenantRejection.promoteRefused req
          (ControlPlane.reject "cross_tenant_or_namespace_mutation")
      else st.promoteChecked cp req

/-! ## Retrieve -/

/-- `handle_retrieval_read` on the runtime every server has, `RetrievalRuntime::fallback_only`:
neither adapter is available, so no candidate is found. -/
def handleRetrievalRead (st : ServerState ω η) (req : RetrievalRequest)
    (principal : AuthPrincipal) : Except RequestFault RetrievalResponse × ServerState ω η :=
  if principal.tenantId ≠ req.tenantId then (.error .forbidden, st)
  else
    let d : GovernanceDecision := ⟨.sanitize, "adapter_unavailable"⟩
    let st := st.registerDecisionOutcome req.tenantId req.nameSpace d
    let st := (st.persistAuditEvidence "retrieval" req.tenantId req.nameSpace none d).2
    (.ok ⟨.degraded, "adapter_unavailable", true⟩, st)

end ServerState

/-! ## Runs -/

/-- A request to the server by an authenticated principal, or a restart of the server with
hooks in some state. -/
inductive ServerEvent (η : Type) where
  | push (req : PushRequest) (principal : AuthPrincipal)
  | pull (req : PullRequest) (principal : AuthPrincipal) (readTier : MemoryTier)
  | promote (req : PromoteRequest) (principal : AuthPrincipal)
  | retrieve (req : RetrievalRequest) (principal : AuthPrincipal)
  | restart (hooks : η)

namespace ServerState

variable {ω η : Type} [Formatting] [Surroundings] [Oplog ω] [Arithmetic] (cp : ControlPlane η)

/-- The state after one event, whatever the response. -/
def step (st : ServerState ω η) : ServerEvent η → ServerState ω η
  | .push req principal => (st.processPush cp req principal).2
  | .pull req principal readTier => (st.processPull cp req principal readTier).2
  | .promote req principal => (st.processPromote cp req principal).2
  | .retrieve req principal => (st.handleRetrievalRead req principal).2
  | .restart hooks => withControlPlane st.oplog hooks st.tick

/-- The state after a sequence of events. -/
def run (st : ServerState ω η) (events : List (ServerEvent η)) : ServerState ω η :=
  events.foldl (step cp) st

end ServerState
end Rango
