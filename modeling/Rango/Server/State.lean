import Rango.Core.ControlPlane
import Rango.Core.LocalWrites

/-!
# The server's state

`ServerState` over an oplog `ω` and control-plane hooks with state `η`: the oplog, the
containment of each scope, the two indexes over the oplog and the audit counter. A scope is a
tenant with a namespace. The clocks and the id generator are streams (`Surroundings`), of
which the state counts the readings taken.
-/

namespace Rango

/-- `AuthPrincipal`. -/
structure AuthPrincipal where
  nodeId : String
  tenantId : String
deriving DecidableEq

/-- The readings of one audit record, in the order in which the code takes them. -/
structure AuditClock where
  uuid : List UInt8
  revisionMs : ℕ
  revisionCounter : ℕ
  recordedAt : DateTime
  mutationAt : DateTime
  createdAt : DateTime
  updatedAt : DateTime
  entryAt : DateTime

/-- What the `n`-th reading of the server's surroundings gives. -/
class Surroundings where
  auditClock : ℕ → AuditClock
  /-- `bson::DateTime::now` -/
  now : ℕ → DateTime
  /-- `Instant::now`, in nanoseconds -/
  instant : ℕ → ℕ

/-- Surroundings for worked examples: all clocks stand still. -/
@[reducible] def Surroundings.sample : Surroundings where
  auditClock _ := ⟨List.replicate 16 0, 0, 0, 0, 0, 0, 0, 0⟩
  now _ := 0
  instant _ := 0

/-! ## Containment -/

/-- `ContainmentMode`. -/
inductive ContainmentMode where
  | normal
  | throttle
  | reject
deriving DecidableEq

/-- `ContainmentState`. -/
structure ContainmentState where
  mode : ContainmentMode
  rejectCount : ℕ
  lastEvent : ℕ
deriving DecidableEq

namespace ContainmentState

def throttleThreshold : ℕ := 3
def rejectThreshold : ℕ := 5

/-- 500 milliseconds. -/
def cooldown : ℕ := 500 * 1000 * 1000

/-- `ContainmentState::default` at an instant. -/
def default (now : ℕ) : ContainmentState := ⟨.normal, 0, now⟩

/-- `ContainmentState::maybe_reset_after_cooldown`. -/
def maybeResetAfterCooldown (s : ContainmentState) (now : ℕ) : ContainmentState :=
  if cooldown ≤ now - s.lastEvent then { s with mode := .normal, rejectCount := 0 } else s

/-- `ContainmentState::observe_decision`. The count is a `u32`. -/
def observeDecision (s : ContainmentState) (now : ℕ) (d : GovernanceDecision) :
    ContainmentState :=
  if d.decision = .reject then
    let count := (s.rejectCount + 1) % 2 ^ 32
    { mode :=
        if rejectThreshold ≤ count then .reject
        else if throttleThreshold ≤ count then .throttle
        else s.mode
      rejectCount := count
      lastEvent := now }
  else ⟨.normal, 0, now⟩

/-- The decision that a mode imposes on the requests of its scope. -/
def gate (s : ContainmentState) : Option GovernanceDecision :=
  match s.mode with
  | .normal => none
  | .throttle => some ⟨.reject, "containment_throttle"⟩
  | .reject => some ⟨.reject, "containment_reject"⟩

end ContainmentState

/-! ## The state -/

/-- `ServerState`, with the number of readings taken from the surroundings so far. -/
structure ServerState (ω η : Type) where
  oplog : ω
  hooks : η
  nonOwnerRejections : ℕ
  crossTenantRejections : ℕ
  containment : String × String → Option ContainmentState
  scopedLatest : String × String → Option ℕ
  scopedWriteIds : String × String × String → Option ℕ
  auditCounter : ℕ
  tick : ℕ

/-- The collection of the audit records. -/
def auditCollection : String := "__governance_audit"

/-- The type of the audit records. -/
def auditType : String := "governance_audit"

namespace ServerState

variable {ω η : Type}

/-! ## Indexes -/

/-- `ServerState::index_mutation`. -/
def indexMutation (st : ServerState ω η) (seq : ℕ) (m : Mutation) : ServerState ω η :=
  -- audit records do not advance user-data checkpoints
  if m.collection = auditCollection then st
  else
    let scope := (m.metadata.tenantId, m.metadata.nameSpace)
    { st with
      scopedLatest := Function.update st.scopedLatest scope
        (some (((st.scopedLatest scope).map fun current => max current seq).getD seq))
      scopedWriteIds := Function.update st.scopedWriteIds
        (m.metadata.tenantId, m.metadata.nameSpace, m.writeId) (some seq) }

/-- `ServerState::scoped_latest_seq`. -/
def scopedLatestSeq (st : ServerState ω η) (tenantId nameSpace : String) : ℕ :=
  (st.scopedLatest (tenantId, nameSpace)).getD 0

/-- `scoped_latest_checkpoint`: the number itself, as the initial checkpoint is `0`. -/
def scopedLatestCheckpoint (st : ServerState ω η) (tenantId nameSpace : String) : ℕ :=
  let scopedLatest := st.scopedLatestSeq tenantId nameSpace
  if scopedLatest = 0 then 0 else scopedLatest

/-- `ServerState::lookup_scoped_write_id_seq`. -/
def lookupScopedWriteIdSeq (st : ServerState ω η) (tenantId nameSpace writeId : String) :
    Option ℕ :=
  st.scopedWriteIds (tenantId, nameSpace, writeId)

/-- The state of a server that indexes nothing yet. -/
def unindexed (oplog : ω) (hooks : η) (tick : ℕ) : ServerState ω η where
  oplog := oplog
  hooks := hooks
  nonOwnerRejections := 0
  crossTenantRejections := 0
  containment _ := none
  scopedLatest _ := none
  scopedWriteIds _ := none
  auditCounter := 0
  tick := tick

/-- `ServerState::with_control_plane`. The indexes are built as by `build_scoped_indexes`: from
one read of the whole log, and left empty when that fails. -/
def withControlPlane [Oplog ω] (oplog : ω) (hooks : η) (tick : ℕ) : ServerState ω η :=
  let st := unindexed oplog hooks tick
  match Oplog.latestSeq oplog with
  | .error _ => st
  | .ok latest =>
    if latest = 0 then st
    else
      match Oplog.readSince 1 (latest + 1) oplog with
      | .error _ => st
      | .ok entries => entries.foldl (fun st e => st.indexMutation e.seq e.mutation) st

/-! ## Counters and hooks -/

def countNonOwnerRejection (st : ServerState ω η) : ServerState ω η :=
  { st with nonOwnerRejections := st.nonOwnerRejections + 1 }

def countCrossTenantRejection (st : ServerState ω η) : ServerState ω η :=
  { st with crossTenantRejections := st.crossTenantRejections + 1 }

/-- The state after a call of the control plane, which leaves its hooks in some state. -/
def withHooks (st : ServerState ω η) (hooks : η) : ServerState ω η := { st with hooks }

section
variable [Surroundings]

/-! ## Containment of a scope -/

/-- The containment of a scope, entered when it is missing. -/
def containmentOf (st : ServerState ω η) (tenantId nameSpace : String) : ContainmentState :=
  (st.containment (tenantId, nameSpace)).getD
    (ContainmentState.default (Surroundings.instant st.tick))

/-- `ServerState::containment_gate`. -/
def containmentGate (st : ServerState ω η) (tenantId nameSpace : String) :
    Option GovernanceDecision × ServerState ω η :=
  let s := (st.containmentOf tenantId nameSpace).maybeResetAfterCooldown
    (Surroundings.instant (st.tick + 1))
  (s.gate, { st with
    containment := Function.update st.containment (tenantId, nameSpace) (some s)
    tick := st.tick + 2 })

/-- `ServerState::register_decision_outcome`. -/
def registerDecisionOutcome (st : ServerState ω η) (tenantId nameSpace : String)
    (d : GovernanceDecision) : ServerState ω η :=
  let s := (st.containmentOf tenantId nameSpace).observeDecision
    (Surroundings.instant (st.tick + 1)) d
  { st with
    containment := Function.update st.containment (tenantId, nameSpace) (some s)
    tick := st.tick + 2 }

/-! ## Audit records -/

section
variable [Formatting]

/-- The mutation of an audit record, with `eventNum` the number of the record. -/
def auditMutation (stage tenantId nameSpace : String) (writeId : Option String)
    (d : GovernanceDecision) (eventNum : ℕ) (t : AuditClock) : Mutation :=
  let docId := DocumentId.newUuidV7 t.uuid
  let rev := Revision.new t.revisionMs t.revisionCounter "governance-runtime"
  let patch := Document.empty
    |>.insert "stage" (.string stage)
    |>.insert "decision" (.string (ControlPlane.decisionLabel d))
    |>.insert "reason" (.string d.reason)
    |>.insert "tenant_id" (.string tenantId)
    |>.insert "namespace" (.string nameSpace)
    |>.insert "write_id" (.string (writeId.getD "none"))
    |>.insert "recorded_at" (.dateTime t.recordedAt)
  { op := .insert
    collection := auditCollection
    docId
    patch := some patch
    seq := 0
    timestamp := t.mutationAt
    rev
    writeId := "governance-audit:" ++ tenantId ++ ":" ++ nameSpace ++ ":" ++ stage ++ ":" ++
      writeId.getD "none" ++ ":" ++ Nat.repr eventNum
    metadata :=
      { id := docId, nameSpace, tenantId, type := auditType, rev, createdAt := t.createdAt
        updatedAt := t.updatedAt, source := "server.runtime", actor := "governance"
        lineage := docId.toString, schemaVersion := 1, trustScore := F64.one
        verified := some true, expiresAt := none } }

variable [Oplog ω]

/-- `ServerState::persist_audit_evidence`. -/
def persistAuditEvidence (st : ServerState ω η) (stage tenantId nameSpace : String)
    (writeId : Option String) (d : GovernanceDecision) :
    Except RangoError ℕ × ServerState ω η :=
  let t := Surroundings.auditClock st.tick
  let m := auditMutation stage tenantId nameSpace writeId d (st.auditCounter + 1) t
  let st := { st with auditCounter := st.auditCounter + 1, tick := st.tick + 1 }
  match m.validateMetadata with
  | .error err => (.error (.sync ("invalid_audit_metadata:" ++ err)), st)
  | .ok () =>
    match Oplog.append { seq := 0, timestamp := t.entryAt, mutation := m, origin := .localWrite,
                         applied := true, snapshotAnchor := none } st.oplog with
    | (.error err, oplog) => (.error err, { st with oplog })
    | (.ok seq, oplog) => (.ok seq, { st with oplog }.indexMutation seq m)

/-- What follows a decision on a push, a pull or a promotion: its audit record, whatever comes
of that, and the containment of the scope. -/
def settle (st : ServerState ω η) (stage tenantId nameSpace : String) (writeId : Option String)
    (d : GovernanceDecision) : ServerState ω η :=
  (st.persistAuditEvidence stage tenantId nameSpace writeId d).2.registerDecisionOutcome
    tenantId nameSpace d

end

/-! ## Client mutations -/

/-- `append_mutation`. -/
def appendMutation [Oplog ω] (st : ServerState ω η) (m : Mutation)
    (tenantId nameSpace : String) : Except RangoError ℕ × ServerState ω η :=
  match m.validateMetadata with
  | .error err => (.error (.sync ("invalid_metadata:" ++ err)), st)
  | .ok () =>
    if m.metadata.tenantId ≠ tenantId ∨ m.metadata.nameSpace ≠ nameSpace then
      (.error (.sync "mutation tenant/namespace does not match request scope"), st)
    else
      -- a write id counts once in a tenant and namespace
      match st.lookupScopedWriteIdSeq tenantId nameSpace m.writeId with
      | some existingSeq => (.ok existingSeq, st)
      | none =>
        let entry := { seq := 0, timestamp := Surroundings.now st.tick, mutation := m
                       origin := .remote, applied := false, snapshotAnchor := none }
        let st := { st with tick := st.tick + 1 }
        match Oplog.append entry st.oplog with
        | (.error err, oplog) => (.error err, { st with oplog })
        | (.ok seq, oplog) => (.ok seq, { st with oplog }.indexMutation seq m)

end
end ServerState
end Rango
