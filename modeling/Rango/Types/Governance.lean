import Rango.Types.Mutation

/-!
# Governance types

The memory tiers, the decisions of the control plane, and the envelopes that a write payload
can carry, with the checks of the envelopes.
-/

namespace Rango

/-- `MemoryTier`. -/
inductive MemoryTier where
  | state
  | episodic
  | semantic
  | artifact
deriving DecidableEq

/-- `PolicyDecision`. -/
inductive PolicyDecision where
  | allow
  | sanitize
  | reject
deriving DecidableEq

/-- `GovernanceDecision`. -/
structure GovernanceDecision where
  decision : PolicyDecision
  reason : String
deriving DecidableEq

/-! ## Envelopes -/

/-- `GovernanceMetadata`: the metadata of an envelope, its id and revision as texts. -/
structure GovernanceMetadata where
  id : String
  nameSpace : String
  tenantId : String
  type : String
  rev : String
  createdAt : DateTime
  updatedAt : DateTime
  source : String
  actor : String
  lineage : String
  schemaVersion : ℕ
  trustScore : F64
  verified : Option Bool
  expiresAt : Option DateTime
deriving DecidableEq

/-- The check on an expiry time, which is only made when there is one. -/
def GovernanceMetadata.validateExpiry (m : GovernanceMetadata) : Except String Unit :=
  match m.expiresAt with
  | some expiresAt => ensure (m.createdAt ≤ expiresAt) "expires_at must be >= created_at"
  | none => .ok ()

/-- `GovernanceMetadata::validate`. -/
def GovernanceMetadata.validate (m : GovernanceMetadata) : Except String Unit := do
  nonEmpty "id" m.id
  nonEmpty "namespace" m.nameSpace
  nonEmpty "tenant_id" m.tenantId
  nonEmpty "type" m.type
  nonEmpty "rev" m.rev
  nonEmpty "source" m.source
  nonEmpty "actor" m.actor
  nonEmpty "lineage" m.lineage
  ensure (1 ≤ m.schemaVersion) "schema_version must be >= 1"
  ensure m.trustScore.inUnit "trust_score must be between 0.0 and 1.0"
  ensure (m.createdAt ≤ m.updatedAt) "updated_at must be >= created_at"
  m.validateExpiry

/-- `EventEnvelope`. -/
structure EventEnvelope where
  metadata : GovernanceMetadata
  writeId : String
  sequence : ℕ
  mutationType : String
  mutationData : Option Document
  isTombstone : Bool
deriving DecidableEq

/-- `EventEnvelope::validate`. -/
def EventEnvelope.validate (e : EventEnvelope) : Except String Unit := do
  e.metadata.validate
  nonEmpty "write_id" e.writeId
  nonEmpty "mutation_type" e.mutationType

/-- `ArtifactEnvelope`. -/
structure ArtifactEnvelope where
  metadata : GovernanceMetadata
  writeId : String
  artifactType : String
  sourceRevision : String
  content : List UInt8
  parentArtifactRevision : Option String
deriving DecidableEq

/-- `ArtifactEnvelope::validate`. -/
def ArtifactEnvelope.validate (a : ArtifactEnvelope) : Except String Unit := do
  a.metadata.validate
  nonEmpty "write_id" a.writeId
  nonEmpty "artifact_type" a.artifactType
  nonEmpty "source_revision" a.sourceRevision

end Rango
