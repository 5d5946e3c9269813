import Rango.Types.Revision

/-!
# Mutations, oplog entries, snapshots

The records that travel between nodes. `MutationMetadata.validate` runs its checks in the
order of the source and reports the first that fails.
-/

namespace Rango

/-! ## Checks -/

/-- One check of a validation: `msg` when it fails. -/
def ensure (ok : Bool) (msg : String) : Except String Unit :=
  if ok then .ok () else .error msg

/-- The check that a text field is present. -/
def nonEmpty (field value : String) : Except String Unit :=
  ensure (value ≠ "") (field ++ " must be non-empty")

@[simp] theorem ensure_eq_ok {ok : Bool} {msg : String} {u : Unit} :
    ensure ok msg = .ok u ↔ ok = true := by
  cases ok <;> simp [ensure]

@[simp] theorem nonEmpty_eq_ok {field value : String} {u : Unit} :
    nonEmpty field value = .ok u ↔ value ≠ "" := by
  simp [nonEmpty]

/-- A sequence of checks passes when each of them does. -/
theorem check_bind_eq_ok {x y : Except String Unit} {u : Unit} :
    (x >>= fun _ => y) = .ok u ↔ x = .ok () ∧ y = .ok u := by
  cases x <;> simp [bind, Except.bind]

/-! ## Mutations -/

/-- `MutationOp`. -/
inductive MutationOp where
  | insert
  | update
  | delete
deriving DecidableEq

/-- `MutationMetadata`. -/
structure MutationMetadata where
  id : DocumentId
  nameSpace : String
  tenantId : String
  type : String
  rev : Revision
  createdAt : DateTime
  updatedAt : DateTime
  source : String
  actor : String
  lineage : String
  schemaVersion : ℕ
  trustScore : F64
  verified : Option Bool
  expiresAt : Option DateTime
deriving DecidableEq

/-- `MutationMetadata::validate`. -/
def MutationMetadata.validate (m : MutationMetadata) : Except String Unit := do
  nonEmpty "namespace" m.nameSpace
  nonEmpty "tenant_id" m.tenantId
  nonEmpty "type" m.type
  nonEmpty "source" m.source
  nonEmpty "actor" m.actor
  nonEmpty "lineage" m.lineage
  ensure (1 ≤ m.schemaVersion) "schema_version must be >= 1"
  ensure m.trustScore.inUnit "trust_score must be between 0.0 and 1.0"
  ensure (m.createdAt ≤ m.updatedAt) "updated_at must be >= created_at"

/-- What valid metadata satisfies. -/
theorem MutationMetadata.validate_eq_ok_iff (m : MutationMetadata) :
    m.validate = .ok () ↔
      m.nameSpace ≠ "" ∧ m.tenantId ≠ "" ∧ m.type ≠ "" ∧ m.source ≠ "" ∧ m.actor ≠ "" ∧
        m.lineage ≠ "" ∧ 1 ≤ m.schemaVersion ∧ m.trustScore.inUnit = true ∧
        m.createdAt ≤ m.updatedAt := by
  simp [validate, check_bind_eq_ok]

/-- `Mutation`. -/
structure Mutation where
  op : MutationOp
  collection : String
  docId : DocumentId
  patch : Option Document
  seq : ℕ
  timestamp : DateTime
  rev : Revision
  writeId : String
  metadata : MutationMetadata
deriving DecidableEq

/-- `DefaultHasher` over the fields that `Mutation::write_id` feeds it. -/
class MutationHasher where
  hash : MutationOp → String → DocumentId → Option Document → Revision → UInt64

/-- A hasher for worked examples. -/
@[reducible] def MutationHasher.sample : MutationHasher := ⟨fun _ _ _ _ _ => 0⟩

namespace Mutation

/-- `Mutation::write_id`: sixteen hexadecimal digits of the hash. -/
def contentWriteId [MutationHasher] (m : Mutation) : String :=
  let h := (MutationHasher.hash m.op m.collection m.docId m.patch m.rev).toNat
  String.ofList ((List.range 16).map fun i => Nat.digitChar (h / 16 ^ (15 - i) % 16))

/-- `Mutation::validate_metadata`. -/
def validateMetadata (m : Mutation) : Except String Unit := m.metadata.validate

end Mutation

/-- A small valid mutation, for worked examples: on the document with string id `id`. -/
def Mutation.sample (collection tenantId id : String) (op : MutationOp) (patch : Option Document)
    (seq : ℕ) (rev writeId : String) : Mutation where
  op := op
  collection := collection
  docId := ⟨.string id⟩
  patch := patch
  seq := seq
  timestamp := 0
  rev := ⟨rev⟩
  writeId := writeId
  metadata :=
    { id := ⟨.string id⟩, nameSpace := collection, tenantId, type := "state", rev := ⟨rev⟩,
      createdAt := 0, updatedAt := 0, source := "node-a", actor := "node-a", lineage := id,
      schemaVersion := 1, trustScore := F64.one, verified := some true, expiresAt := none }

/-! ## Oplog entries -/

/-- `OplogOrigin`. -/
inductive OplogOrigin where
  | localWrite
  | remote
  | replay
deriving DecidableEq

/-- `OplogEntry`. -/
structure OplogEntry where
  seq : ℕ
  timestamp : DateTime
  mutation : Mutation
  origin : OplogOrigin
  applied : Bool
  snapshotAnchor : Option String
deriving DecidableEq

/-! ## Snapshots and rollbacks -/

/-- `SnapshotUnit`. -/
structure SnapshotUnit where
  snapshotId : String
  tenantId : String
  nameSpace : String
  baseSeq : ℕ
  createdAt : DateTime
  state : List Document
deriving DecidableEq

/-- `RollbackUnit`. -/
structure RollbackUnit where
  snapshotId : String
  targetSeq : ℕ
  requestedAt : DateTime
  reason : String
deriving DecidableEq

/-- `RollbackAudit`. -/
structure RollbackAudit where
  rollback : RollbackUnit
  appliedAt : DateTime
deriving DecidableEq

end Rango
