import Rango.Lib.Interleaving
import Rango.Server.Routes

/-!
# Pushes and pulls in atomic steps

The server answers requests concurrently, and every step that takes a lock is atomic by itself:
the containment of a scope, the audit counter, the log and each of the two indexes.
`ServerOp` lists these steps and `Atomic.processPush` and `Atomic.processPull` are the requests
as programs over them. Run alone, they are the requests as functions
(`Atomic.run_processPush`, `Atomic.run_processPull`).
-/

namespace Rango

open Interleaving

/-- The atomic steps. The clock readings for an entry belong to the step that appends it or
counts it. -/
inductive ServerOp where
  | countNonOwnerRejection
  | countCrossTenantRejection
  | containmentGate (tenantId nameSpace : String)
  | registerDecisionOutcome (tenantId nameSpace : String) (d : GovernanceDecision)
  | writePath (ctx : WriteContext) (payload : WritePayload)
  | readPath (request : ReadRequest) (candidates : List Document)
  | countAudit
  | appendAudit (e : OplogEntry)
  | lookup (tenantId nameSpace : String) (m : Mutation)
  | appendRemote (m : Mutation)
  | indexLatest (seq : ℕ) (m : Mutation)
  | indexWriteId (seq : ℕ) (m : Mutation)
  | readSince (first limit : ℕ)
  | checkpoint (tenantId nameSpace : String)

/-- What an atomic step answers. -/
@[reducible] def ServerOp.Res : ServerOp → Type
  | .countNonOwnerRejection | .countCrossTenantRejection => Unit
  | .containmentGate .. => Option GovernanceDecision
  | .registerDecisionOutcome .. => Unit
  | .writePath .. => GovernanceDecision
  | .readPath .. => GovernanceDecision × List Document
  | .countAudit => ℕ × AuditClock
  | .appendAudit _ | .appendRemote _ => Except RangoError ℕ
  | .lookup .. => Option ℕ
  | .indexLatest .. | .indexWriteId .. => Unit
  | .readSince .. => Except RangoError (List OplogEntry)
  | .checkpoint .. => ℕ

/-- A request as a program over the atomic steps. -/
abbrev ServerProg (α : Type) : Type := Prog ServerOp.Res α

namespace ServerState

variable {ω η : Type}

/-- The first lock of `index_mutation`: the latest number of the scope. -/
def indexLatest (st : ServerState ω η) (seq : ℕ) (m : Mutation) : ServerState ω η :=
  let scope := (m.metadata.tenantId, m.metadata.nameSpace)
  { st with
    scopedLatest := Function.update st.scopedLatest scope
      (some (((st.scopedLatest scope).map fun current => max current seq).getD seq)) }

/-- The second lock of `index_mutation`: the number of the write id. -/
def indexWriteId (st : ServerState ω η) (seq : ℕ) (m : Mutation) : ServerState ω η :=
  { st with
    scopedWriteIds := Function.update st.scopedWriteIds
      (m.metadata.tenantId, m.metadata.nameSpace, m.writeId) (some seq) }

variable [Formatting] [Surroundings] [Oplog ω] (cp : ControlPlane η)

/-- One atomic step. -/
def perform : (o : ServerOp) → ServerState ω η → o.Res × ServerState ω η
  | .countNonOwnerRejection, st => ((), st.countNonOwnerRejection)
  | .countCrossTenantRejection, st => ((), st.countCrossTenantRejection)
  | .containmentGate tenantId nameSpace, st => st.containmentGate tenantId nameSpace
  | .registerDecisionOutcome tenantId nameSpace d, st =>
    ((), st.registerDecisionOutcome tenantId nameSpace d)
  | .writePath ctx payload, st =>
    ((cp.writePath ctx payload st.hooks).1, st.withHooks (cp.writePath ctx payload st.hooks).2)
  | .readPath request candidates, st =>
    ((cp.readPath request candidates st.hooks).1,
      st.withHooks (cp.readPath request candidates st.hooks).2)
  | .countAudit, st =>
    ((st.auditCounter + 1, Surroundings.auditClock st.tick),
      { st with auditCounter := st.auditCounter + 1, tick := st.tick + 1 })
  | .appendAudit e, st =>
    ((Oplog.append e st.oplog).1, { st with oplog := (Oplog.append e st.oplog).2 })
  | .lookup tenantId nameSpace m, st =>
    (st.lookupScopedWriteIdSeq tenantId nameSpace m.writeId, st)
  | .appendRemote m, st =>
    let entry := { seq := 0, timestamp := Surroundings.now st.tick, mutation := m
                   origin := .remote, applied := false, snapshotAnchor := none }
    ((Oplog.append entry st.oplog).1,
      { st with oplog := (Oplog.append entry st.oplog).2, tick := st.tick + 1 })
  | .indexLatest seq m, st => ((), st.indexLatest seq m)
  | .indexWriteId seq m, st => ((), st.indexWriteId seq m)
  | .readSince first limit, st => (Oplog.readSince first limit st.oplog, st)
  | .checkpoint tenantId nameSpace, st => (st.scopedLatestCheckpoint tenantId nameSpace, st)

end ServerState

/-! ## The requests -/

namespace Atomic

/-- The program of one step. -/
def ask (o : ServerOp) : ServerProg o.Res := .request o

/-- `ServerState::index_mutation`. -/
def indexMutation (seq : ℕ) (m : Mutation) : ServerProg Unit :=
  if m.collection = auditCollection then pure ()
  else do
    ask (.indexLatest seq m)
    ask (.indexWriteId seq m)

section
variable [Formatting]

/-- `ServerState::persist_audit_evidence`. -/
def persistAuditEvidence (stage tenantId nameSpace : String) (writeId : Option String)
    (d : GovernanceDecision) : ServerProg (Except RangoError ℕ) := do
  let (eventNum, t) ← ask .countAudit
  let m := ServerState.auditMutation stage tenantId nameSpace writeId d eventNum t
  match m.validateMetadata with
  | .error err => pure (.error (.sync ("invalid_audit_metadata:" ++ err)))
  | .ok () =>
    match ← ask (.appendAudit
      { seq := 0, timestamp := t.entryAt, mutation := m, origin := .localWrite
        applied := true, snapshotAnchor := none }) with
    | .error err => pure (.error err)
    | .ok seq => do
      indexMutation seq m
      pure (.ok seq)

/-- What follows a decision: its audit record and the containment of the scope. -/
def settle (stage tenantId nameSpace : String) (writeId : Option String)
    (d : GovernanceDecision) : ServerProg Unit := do
  let _ ← persistAuditEvidence stage tenantId nameSpace writeId d
  ask (.registerDecisionOutcome tenantId nameSpace d)

end

/-- `append_mutation`. -/
def appendMutation (m : Mutation) (tenantId nameSpace : String) :
    ServerProg (Except RangoError ℕ) :=
  match m.validateMetadata with
  | .error err => pure (.error (.sync ("invalid_metadata:" ++ err)))
  | .ok () =>
    if m.metadata.tenantId ≠ tenantId ∨ m.metadata.nameSpace ≠ nameSpace then
      pure (.error (.sync "mutation tenant/namespace does not match request scope"))
    else do
      match ← ask (.lookup tenantId nameSpace m) with
      | some existingSeq => pure (.ok existingSeq)
      | none =>
        match ← ask (.appendRemote m) with
        | .error err => pure (.error err)
        | .ok seq => do
          indexMutation seq m
          pure (.ok seq)

variable [Formatting]

/-- A mutation of a push that is refused with a decision. -/
def pushRefused (req : PushRequest) (m : Mutation) (crossTenant : Bool)
    (d : GovernanceDecision) : ServerProg (Except RequestFault Pushed) := do
  settle "write" req.tenantId req.nameSpace (some m.writeId) d
  pure (.ok ⟨none, crossTenant, d⟩)

/-- The loop body of `process_push` behind the decision on the mutation. -/
def pushDecided (req : PushRequest) (m : Mutation) (d : GovernanceDecision) :
    ServerProg (Except RequestFault Pushed) :=
  if ControlPlane.isReject d then pushRefused req m false d
  else do
    settle "write" req.tenantId req.nameSpace (some m.writeId) d
    match ← appendMutation m req.tenantId req.nameSpace with
    | .error _ => pure (.error .internalServerError)
    | .ok seq => pure (.ok ⟨some seq, false, d⟩)

/-- The loop body of `process_push` behind the checks of the mutation. -/
def pushChecked (req : PushRequest) (m : Mutation) : ServerProg (Except RequestFault Pushed) := do
  let answer ← ask (.writePath
    { tenantId := req.tenantId, nameSpace := req.nameSpace, actor := m.metadata.actor
      source := m.metadata.source, tier := .state }
    (.stateWithTrust (m.patch.getD Document.empty) m.metadata.trustScore))
  pushDecided req m (normalizeWriteDecision answer)

/-- The loop body of `process_push`. -/
def pushMutation (req : PushRequest) (m : Mutation) :
    ServerProg (Except RequestFault Pushed) := do
  match ← ask (.containmentGate req.tenantId req.nameSpace) with
  | some d => pushRefused req m false d
  | none =>
    match m.validateMetadata with
    | .error err => pushRefused req m false (ControlPlane.reject ("invalid_metadata:" ++ err))
    | .ok () =>
      if m.metadata.tenantId ≠ req.tenantId ∨ m.metadata.nameSpace ≠ req.nameSpace then do
        ask .countCrossTenantRejection
        pushRefused req m true (ControlPlane.reject "cross_tenant_or_namespace_mutation")
      else pushChecked req m

/-- The loop of `process_push`. -/
def pushLoop (req : PushRequest) :
    List Mutation → ServerProg (Except RequestFault (List Pushed))
  | [] => pure (.ok [])
  | m :: rest => do
    match ← pushMutation req m with
    | .error fault => pure (.error fault)
    | .ok pushed =>
      match ← pushLoop req rest with
      | .error fault => pure (.error fault)
      | .ok outcomes => pure (.ok (pushed :: outcomes))

/-- The end of a push whose principal does not match. -/
def pushMismatch (req : PushRequest) (nonOwner crossTenant : ℕ) (reason : String) :
    ServerProg (Except RequestFault PushResponse) := do
  let d := ControlPlane.reject reason
  settle "write" req.tenantId req.nameSpace none d
  let newCheckpoint ← ask (.checkpoint req.tenantId req.nameSpace)
  pure (.ok { acceptedSeqs := [], newCheckpoint, rejectedNonOwnerCount := nonOwner
              rejectedCrossTenantCount := crossTenant, audit := [d] })

/-- `ServerState::process_push`. -/
def processPush (req : PushRequest) (principal : AuthPrincipal) :
    ServerProg (Except RequestFault PushResponse) :=
  if req.nodeId ≠ principal.nodeId then do
    ask .countNonOwnerRejection
    pushMismatch req 1 0 "node_mismatch"
  else if req.tenantId ≠ principal.tenantId then do
    ask .countCrossTenantRejection
    pushMismatch req 0 1 "tenant_mismatch"
  else do
    match ← pushLoop req req.mutations with
    | .error fault => pure (.error fault)
    | .ok outcomes =>
      let newCheckpoint ← ask (.checkpoint req.tenantId req.nameSpace)
      pure (.ok { acceptedSeqs := outcomes.filterMap Pushed.accepted
                  newCheckpoint
                  rejectedNonOwnerCount := 0
                  rejectedCrossTenantCount := outcomes.countP Pushed.crossTenant
                  audit := outcomes.map Pushed.decision })

/-- The end of `process_pull`: the decision is recorded and the mutations returned. -/
def pullAnswered (req : PullRequest) (d : GovernanceDecision) (mutations : List Mutation) :
    ServerProg (Except RequestFault PullResponse) := do
  settle "read" req.tenantId req.nameSpace none d
  let newCheckpoint ← ask (.checkpoint req.tenantId req.nameSpace)
  pure (.ok { mutations, newCheckpoint, audit := [d] })

/-- `process_pull` behind the decision of the control plane and of containment. -/
def pullDecided (req : PullRequest) (readTier : MemoryTier) (scopedEntries : List OplogEntry)
    (d : GovernanceDecision) (filtered : List Document) :
    ServerProg (Except RequestFault PullResponse) :=
  if ControlPlane.isReject d then pullAnswered req d []
  else pullAnswered req d (selectMutations readTier (identityCounts filtered) scopedEntries)

/-- `process_pull` behind the read of its page. -/
def pullRead (req : PullRequest) (readTier : MemoryTier) (scopedEntries : List OplogEntry) :
    ServerProg (Except RequestFault PullResponse) := do
  let (d, filtered) ← ask (.readPath
    { tenantId := req.tenantId, nameSpace := req.nameSpace, tier := readTier, limit := pageLimit }
    (scopedEntries.filterMap addCandidateIdentity))
  let containment ← ask (.containmentGate req.tenantId req.nameSpace)
  pullDecided req readTier scopedEntries (containment.getD d) filtered

/-- `ServerState::process_pull`. -/
def processPull [Arithmetic] (req : PullRequest) (principal : AuthPrincipal)
    (readTier : MemoryTier) : ServerProg (Except RequestFault PullResponse) :=
  if principal.nodeId ≠ req.nodeId ∨ principal.tenantId ≠ req.tenantId then
    if principal.tenantId ≠ req.tenantId then do
      ask .countCrossTenantRejection
      pullAnswered req (ControlPlane.reject "tenant_mismatch") []
    else pullAnswered req (ControlPlane.reject "node_mismatch") []
  else
    match afterCheckpoint req.sinceCheckpoint with
    | .error fault => pure (.error fault)
    | .ok first => do
      match ← ask (.readSince first pageLimit) with
      | .error _ => pure (.error .internalServerError)
      | .ok entries => pullRead req readTier (entries.filter (inPullScope req readTier))

/-! ## Requests run alone -/

section
variable {ω η : Type} [Surroundings] [Oplog ω] (cp : ControlPlane η) (st : ServerState ω η)

lemma run_ask_bind {α : Type} (o : ServerOp) (f : o.Res → ServerProg α) :
    (ask o >>= f).run (ServerState.perform cp) st =
      (f (st.perform cp o).1).run (ServerState.perform cp) (st.perform cp o).2 := rfl

lemma run_indexMutation (seq : ℕ) (m : Mutation) :
    (indexMutation seq m).run (ServerState.perform cp) st = ((), st.indexMutation seq m) := by
  unfold indexMutation ServerState.indexMutation
  split_ifs with hcollection
  · rfl
  · rfl

/-- The end of both append paths. -/
lemma run_index_answer (seq : ℕ) (m : Mutation) :
    (do indexMutation seq m; pure (.ok seq) : ServerProg (Except RangoError ℕ)).run
      (ServerState.perform cp) st = (.ok seq, st.indexMutation seq m) := by
  rw [Prog.bind_eq, Prog.run_bind, run_indexMutation]
  rfl

lemma run_persistAuditEvidence (stage tenantId nameSpace : String) (writeId : Option String)
    (d : GovernanceDecision) :
    (persistAuditEvidence stage tenantId nameSpace writeId d).run (ServerState.perform cp) st =
      st.persistAuditEvidence stage tenantId nameSpace writeId d := by
  rw [persistAuditEvidence, run_ask_bind]
  simp only [ServerState.persistAuditEvidence, ServerState.perform]
  cases (ServerState.auditMutation stage tenantId nameSpace writeId d
      (st.auditCounter + 1) (Surroundings.auditClock st.tick)).validateMetadata with
  | error err => rfl
  | ok u =>
    simp only [run_ask_bind cp _ (.appendAudit _), ServerState.perform]
    rcases Oplog.append _ st.oplog with ⟨err | seq, oplog⟩
    · rfl
    · exact run_index_answer cp _ seq _

lemma run_settle (stage tenantId nameSpace : String) (writeId : Option String)
    (d : GovernanceDecision) :
    (settle stage tenantId nameSpace writeId d).run (ServerState.perform cp) st =
      ((), st.settle stage tenantId nameSpace writeId d) := by
  rw [settle, Prog.bind_eq, Prog.run_bind, run_persistAuditEvidence]
  rfl

lemma run_appendMutation (m : Mutation) (tenantId nameSpace : String) :
    (appendMutation m tenantId nameSpace).run (ServerState.perform cp) st =
      st.appendMutation m tenantId nameSpace := by
  unfold appendMutation ServerState.appendMutation
  cases m.validateMetadata with
  | error err => rfl
  | ok u =>
    simp only
    split_ifs with hscope
    · rfl
    · simp only [run_ask_bind cp _ (.lookup ..), ServerState.perform]
      cases st.lookupScopedWriteIdSeq tenantId nameSpace m.writeId with
      | some seq => rfl
      | none =>
        simp only [run_ask_bind cp _ (.appendRemote _), ServerState.perform]
        rcases Oplog.append _ st.oplog with ⟨err | seq, oplog⟩
        · rfl
        · exact run_index_answer cp _ seq m

lemma run_pushRefused (req : PushRequest) (m : Mutation) (crossTenant : Bool)
    (d : GovernanceDecision) :
    (pushRefused req m crossTenant d).run (ServerState.perform cp) st =
      st.pushRefused req m crossTenant d := by
  rw [pushRefused, Prog.bind_eq, Prog.run_bind, run_settle]
  rfl

lemma run_pushDecided (req : PushRequest) (m : Mutation) (d : GovernanceDecision) :
    (pushDecided req m d).run (ServerState.perform cp) st =
      if ControlPlane.isReject d then st.pushRefused req m false d
      else
        match (st.settle "write" req.tenantId req.nameSpace (some m.writeId) d).appendMutation m
            req.tenantId req.nameSpace with
        | (.error _, st) => (.error .internalServerError, st)
        | (.ok seq, st) => (.ok ⟨some seq, false, d⟩, st) := by
  unfold pushDecided
  split
  · exact run_pushRefused ..
  · rw [Prog.bind_eq, Prog.run_bind, run_settle, Prog.bind_eq, Prog.run_bind, run_appendMutation]
    rcases ServerState.appendMutation _ m req.tenantId req.nameSpace with ⟨err | seq, st'⟩
    · rfl
    · rfl

lemma run_pushChecked (req : PushRequest) (m : Mutation) :
    (pushChecked req m).run (ServerState.perform cp) st = st.pushChecked cp req m :=
  run_pushDecided cp _ req m _

lemma run_pushMutation (req : PushRequest) (m : Mutation) :
    (pushMutation req m).run (ServerState.perform cp) st = st.pushMutation cp req m := by
  rw [pushMutation, run_ask_bind cp st (.containmentGate ..)]
  simp only [ServerState.pushMutation, ServerState.perform]
  rcases st.containmentGate req.tenantId req.nameSpace with ⟨_ | d, st'⟩
  · cases m.validateMetadata with
    | error err => exact run_pushRefused cp st' req m false _
    | ok u =>
      by_cases hscope : m.metadata.tenantId ≠ req.tenantId ∨ m.metadata.nameSpace ≠ req.nameSpace
      · simp only [if_pos hscope]
        exact run_pushRefused cp st'.countCrossTenantRejection req m true _
      · simp only [if_neg hscope]
        exact run_pushChecked cp st' req m
  · exact run_pushRefused cp st' req m false d

lemma run_pushLoop (req : PushRequest) (ms : List Mutation) :
    (pushLoop req ms).run (ServerState.perform cp) st = st.pushLoop cp req ms := by
  induction ms generalizing st with
  | nil => rfl
  | cons m rest ih =>
    rw [pushLoop, Prog.bind_eq, Prog.run_bind, run_pushMutation, ServerState.pushLoop]
    rcases st.pushMutation cp req m with ⟨fault | pushed, st'⟩
    · rfl
    · simp only [Prog.bind_eq, Prog.run_bind, ih]
      rcases st'.pushLoop cp req rest with ⟨fault | outcomes, st''⟩
      · rfl
      · rfl

lemma run_pushMismatch (req : PushRequest) (nonOwner crossTenant : ℕ) (reason : String) :
    (pushMismatch req nonOwner crossTenant reason).run (ServerState.perform cp) st =
      (.ok { acceptedSeqs := []
             newCheckpoint := (st.settle "write" req.tenantId req.nameSpace none
               (ControlPlane.reject reason)).scopedLatestCheckpoint req.tenantId req.nameSpace
             rejectedNonOwnerCount := nonOwner, rejectedCrossTenantCount := crossTenant
             audit := [ControlPlane.reject reason] },
        st.settle "write" req.tenantId req.nameSpace none (ControlPlane.reject reason)) := by
  rw [pushMismatch, Prog.bind_eq, Prog.run_bind, run_settle]
  rfl

/-- **Pushes.** Run alone, the program of a push is the push. -/
theorem run_processPush (req : PushRequest) (principal : AuthPrincipal) :
    (processPush req principal).run (ServerState.perform cp) st =
      st.processPush cp req principal := by
  unfold processPush ServerState.processPush
  split_ifs with hnode htenant
  · exact run_pushMismatch cp st.countNonOwnerRejection req 1 0 "node_mismatch"
  · exact run_pushMismatch cp st.countCrossTenantRejection req 0 1 "tenant_mismatch"
  · rw [Prog.bind_eq, Prog.run_bind, run_pushLoop]
    rcases st.pushLoop cp req req.mutations with ⟨fault | outcomes, st'⟩
    · rfl
    · rfl

lemma run_pullAnswered (req : PullRequest) (d : GovernanceDecision) (mutations : List Mutation) :
    (pullAnswered req d mutations).run (ServerState.perform cp) st =
      st.pullAnswered req d mutations := by
  rw [pullAnswered, Prog.bind_eq, Prog.run_bind, run_settle]
  rfl

lemma run_pullDecided (req : PullRequest) (readTier : MemoryTier)
    (scopedEntries : List OplogEntry) (d : GovernanceDecision) (filtered : List Document) :
    (pullDecided req readTier scopedEntries d filtered).run (ServerState.perform cp) st =
      if ControlPlane.isReject d then st.pullAnswered req d []
      else st.pullAnswered req d
        (selectMutations readTier (identityCounts filtered) scopedEntries) := by
  unfold pullDecided
  split
  · exact run_pullAnswered ..
  · exact run_pullAnswered ..

lemma run_pullRead (req : PullRequest) (readTier : MemoryTier) (scopedEntries : List OplogEntry) :
    (pullRead req readTier scopedEntries).run (ServerState.perform cp) st =
      match st.readDecision cp req readTier scopedEntries with
      | ((d, filtered), st') =>
        if ControlPlane.isReject d then st'.pullAnswered req d []
        else st'.pullAnswered req d
          (selectMutations readTier (identityCounts filtered) scopedEntries) :=
  run_pullDecided cp _ req readTier scopedEntries _ _

/-- **Pulls.** Run alone, the program of a pull is the pull. -/
theorem run_processPull [Arithmetic] (req : PullRequest) (principal : AuthPrincipal)
    (readTier : MemoryTier) :
    (processPull req principal readTier).run (ServerState.perform cp) st =
      st.processPull cp req principal readTier := by
  unfold processPull ServerState.processPull
  split_ifs with hprincipal htenant
  · exact run_pullAnswered cp st.countCrossTenantRejection req _ []
  · exact run_pullAnswered cp st req _ []
  · rw [ServerState.pullScoped]
    cases afterCheckpoint req.sinceCheckpoint with
    | error fault => rfl
    | ok first =>
      simp only [run_ask_bind cp _ (.readSince ..), ServerState.perform]
      cases Oplog.readSince first pageLimit st.oplog with
      | error err => rfl
      | ok entries => exact run_pullRead cp st req readTier _

/-- **One after another.** A push of a pool that is left to run alone does what the push does. -/
theorem exec_processPush_alone {ι : Type} [DecidableEq ι]
    {pool : Pool (ServerState ω η) ServerOp.Res fun _ : ι => Except RequestFault PushResponse}
    {i : ι} {req : PushRequest} {principal : AuthPrincipal}
    (hi : pool.threads i = processPush req principal) :
    ∃ n, pool.exec (ServerState.perform cp) (List.replicate n i) =
      { shared := (pool.shared.processPush cp req principal).2
        threads := Function.update pool.threads i
          (.done (pool.shared.processPush cp req principal).1) } := by
  have halone := Pool.exec_alone (ServerState.perform cp) pool i
  rw [hi, run_processPush] at halone
  exact halone

end

/-! ## Recording a decision under a protocol -/

end Atomic

/-- The steps that record a decision. -/
def ServerOp.Settling : ServerOp → Prop
  | .countAudit | .registerDecisionOutcome .. => True
  | .appendAudit e => e.mutation.collection = auditCollection
  | _ => False

namespace Atomic

section
variable {Φ α : Type} {P : Protocol Φ ServerOp.Res} {φ : Φ} {post : Φ → α → Prop}

/-- A step that leaves the phase. -/
lemma follows_ask_bind {o : ServerOp} {f : o.Res → ServerProg α} (ho : P.Quiet φ o)
    (hf : ∀ r, P.Follows post φ (f r)) : P.Follows post φ (ask o >>= f) := by
  refine ⟨ho.1, fun r ψ hψ => ?_⟩
  rw [ho.2 r ψ hψ]
  exact hf r

/-- A program that leaves the phase, in sequence with others. -/
lemma follows_bind {β : Type} {p : ServerProg β} {f : β → ServerProg α}
    (hp : P.Follows (fun ψ _ => ψ = φ) φ p) (hf : ∀ b, P.Follows post φ (f b)) :
    P.Follows post φ (p >>= f) := by
  refine hp.bind fun ψ b hψ => ?_
  rw [hψ]
  exact hf b

variable [Formatting]

/-- The entry of an audit record. -/
def auditEntry (stage tenantId nameSpace : String) (writeId : Option String)
    (d : GovernanceDecision) (eventNum : ℕ) (t : AuditClock) : OplogEntry where
  seq := 0
  timestamp := t.entryAt
  mutation := ServerState.auditMutation stage tenantId nameSpace writeId d eventNum t
  origin := .localWrite
  applied := true
  snapshotAnchor := none

/-- Where the steps of an audit record are allowed and leave the phase, so does writing one. -/
lemma persistAuditEvidence_follows {stage tenantId nameSpace : String} {writeId : Option String}
    {d : GovernanceDecision} (hcount : P.Quiet φ .countAudit)
    (happend : ∀ eventNum t,
      P.Quiet φ (.appendAudit (auditEntry stage tenantId nameSpace writeId d eventNum t))) :
    P.Follows (fun ψ _ => ψ = φ) φ
      (persistAuditEvidence stage tenantId nameSpace writeId d) := by
  refine follows_ask_bind hcount ?_
  rintro ⟨eventNum, t⟩
  simp only
  cases (ServerState.auditMutation stage tenantId nameSpace writeId d eventNum
      t).validateMetadata with
  | error err => rfl
  | ok u =>
    refine follows_ask_bind (happend eventNum t) ?_
    rintro (err | seq)
    · rfl
    · rfl

/-- Where the steps that record a decision are allowed and leave the phase, so does recording
one. -/
lemma settle_follows (hquiet : ∀ o : ServerOp, o.Settling → P.Quiet φ o)
    (stage tenantId nameSpace : String) (writeId : Option String) (d : GovernanceDecision) :
    P.Follows (fun ψ _ => ψ = φ) φ (settle stage tenantId nameSpace writeId d) := by
  refine follows_bind (persistAuditEvidence_follows (hquiet .countAudit trivial)
    fun _ _ => hquiet (.appendAudit _) rfl) fun _ => ?_
  have hregister := hquiet (.registerDecisionOutcome tenantId nameSpace d) trivial
  exact ⟨hregister.1, fun r ψ hψ => hregister.2 r ψ hψ⟩

end
end Atomic
end Rango
