import Rango.Lib.Sorting
import Rango.Storage.Engine
import Rango.Types.Mutation

/-!
# The engine: remote mutations, replay, snapshots

`RangoEngine` with the operations that take in other nodes' mutations, that save and restore a
collection and that clear it of tombstones. Each returns its result together with the engine it
leaves, also on an error. Local writes are in `Rango.Core.LocalWrites`.
-/

namespace Rango

/-- `RangoConfig`, the field the engine reads. -/
structure RangoConfig where
  maxDocumentSizeBytes : ℕ

/-- `RangoConfig::default`: 16 MB. -/
def RangoConfig.default : RangoConfig := ⟨16 * 1024 * 1024⟩

/-- `RangoEngine` over a storage backend `σ` and an oplog `ω`. Of the metrics, the count of
detected replay drifts. -/
structure RangoEngine (σ ω : Type) where
  storage : σ
  oplog : ω
  nodeId : String
  config : RangoConfig
  appliedWriteIds : List String
  replayDriftDetections : ℕ

/-! ## Documents -/

/-- `is_deleted`. -/
def isDeleted (doc : Document) : Bool := (doc.getBool "_deleted").getD false

/-- The revision a document is compared by: that of its `_rev` when it is well formed. -/
def docRevision [Formatting] (doc : Document) : Revision :=
  ((doc.getStr "_rev").bind fun s => (Revision.fromStr s).toOption).getD (Revision.initial "")

/-- The array with the oldest elements dropped until ten are left. -/
def keepTen (conflicts : List Bson) : List Bson := conflicts.drop (conflicts.length - 10)

/-- `RangoEngine::add_conflict`: the winner with the loser appended to its `_conflicts`. -/
def addConflict (loser winner : Document) : Document :=
  match (winner.get "_conflicts").getD (.array []) with
  | .array arr => winner.insert "_conflicts" (.array (keepTen (arr ++ [.document loser.entries])))
  | _ => winner

namespace RangoEngine

variable {σ ω : Type} [StorageEngine σ]

/-- `RangoEngine::open_with_config`. -/
def openWithConfig (storage : σ) (oplog : ω) (nodeId : String) (config : RangoConfig) :
    RangoEngine σ ω :=
  { storage, oplog, nodeId, config, appliedWriteIds := [], replayDriftDetections := 0 }

/-- `RangoEngine::open`. -/
def openEngine (storage : σ) (oplog : ω) (nodeId : String) : RangoEngine σ ω :=
  openWithConfig storage oplog nodeId RangoConfig.default

/-! ## Storage calls -/

def storageGet (e : RangoEngine σ ω) (c : CollectionName) (id : DocumentId) :
    Except RangoError (Option Document) × RangoEngine σ ω :=
  ((StorageEngine.get c id e.storage).1,
    { e with storage := (StorageEngine.get c id e.storage).2 })

def storagePut (e : RangoEngine σ ω) (c : CollectionName) (id : DocumentId) (doc : Document) :
    Except RangoError Unit × RangoEngine σ ω :=
  ((StorageEngine.put c id doc e.storage).1,
    { e with storage := (StorageEngine.put c id doc e.storage).2 })

def storageDelete (e : RangoEngine σ ω) (c : CollectionName) (id : DocumentId) :
    Except RangoError Bool × RangoEngine σ ω :=
  ((StorageEngine.delete c id e.storage).1,
    { e with storage := (StorageEngine.delete c id e.storage).2 })

def storageScan (e : RangoEngine σ ω) (c : CollectionName) :
    Except RangoError (List (Except RangoError Document)) × RangoEngine σ ω :=
  ((StorageEngine.scan c e.storage).1, { e with storage := (StorageEngine.scan c e.storage).2 })

/-! ## Reading -/

/-- `RangoEngine::find_one`. -/
def findOne (e : RangoEngine σ ω) (c : CollectionName) (id : DocumentId) :
    Except RangoError (Option Document) :=
  match (e.storageGet c id).1 with
  | .ok found => .ok (found.filter fun d => !isDeleted d)
  | .error err => .error err

/-- `RangoEngine::find_all_raw`: tombstones included. The filter is empty, which every
document matches; documents that fail to decode are skipped. -/
def findAllRaw (e : RangoEngine σ ω) (c : CollectionName) :
    Except RangoError (List Document) × RangoEngine σ ω :=
  match e.storageScan c with
  | (.ok results, e) => (.ok (results.filterMap Except.toOption), e)
  | (.error err, e) => (.error err, e)

/-! ## Applying remote mutations -/

section Apply
variable [Formatting]

/-- `RangoEngine::apply_remote_mutation`. -/
def applyRemoteMutation (e : RangoEngine σ ω) (c : CollectionName) (doc : Document) :
    Except RangoError Unit × RangoEngine σ ω :=
  match doc.get "_id" with
  | none => (.error (.documentNotFound "missing _id"), e)
  | some idBson =>
    let id := DocumentId.fromBson idBson
    match e.storageGet c id with
    | (.error err, e) => (.error err, e)
    | (.ok none, e) => e.storagePut c id doc
    | (.ok (some localDoc), e) =>
      if isDeleted localDoc then e.storagePut c id doc
      else
        match (docRevision doc).cmp (docRevision localDoc) with
        -- remote wins: the local version becomes a conflict of the remote one
        | .gt => e.storagePut c id (addConflict localDoc doc)
        -- local wins
        | .lt => e.storagePut c id (addConflict doc localDoc)
        | .eq => (.ok (), e)

/-- What a mutation without a patch stores. -/
def tombstone (nodeId : String) (m : Mutation) : Document :=
  ((((Document.empty.insert "_id" m.docId.bson).insert "_deleted" (.boolean true)).insert
    "_rev" (.string m.rev.text)).insert "_updated_at" (.dateTime m.timestamp)).insert
    "_source_node" (.string nodeId)

/-- The document that replaying a mutation applies. -/
def mutationDocument (nodeId : String) (m : Mutation) : Document :=
  match m.patch with
  | some doc => doc
  | none => tombstone nodeId m

/-- The collection a mutation goes to. -/
def mutationCollection (default : CollectionName) (m : Mutation) : CollectionName :=
  if m.collection = "" then default else ⟨m.collection⟩

/-- The canonical order: collection, timestamp, seq, printed document id, write id. -/
def canonicalCmp (a b : Mutation) : Ordering :=
  (compare a.collection b.collection).then <|
    (compare a.timestamp b.timestamp).then <|
      (compare a.seq b.seq).then <|
        (compare a.docId.toString b.docId.toString).then (compare a.writeId b.writeId)

/-- `a` may stand before `b` in the canonical order. -/
def CanonicalLe (a b : Mutation) : Prop := canonicalCmp a b ≠ .gt

instance : DecidableRel CanonicalLe := fun a b =>
  inferInstanceAs (Decidable (canonicalCmp a b ≠ .gt))

/-- The check of the drift loop on two neighbours. -/
def outOfOrder (a b : Mutation) : Bool :=
  b.collection < a.collection ||
    (a.collection = b.collection && b.timestamp < a.timestamp) ||
    (a.collection = b.collection && a.timestamp = b.timestamp && b.seq < a.seq) ||
    (a.collection = b.collection && a.timestamp = b.timestamp && a.seq = b.seq &&
      b.docId.toString < a.docId.toString) ||
    (a.collection = b.collection && a.timestamp = b.timestamp && a.seq = b.seq &&
      a.docId.toString = b.docId.toString && b.writeId < a.writeId)

/-- Some two neighbours of the batch, as received, are out of order. -/
def receivedOutOfOrder : List Mutation → Bool
  | a :: b :: rest => outOfOrder a b || receivedOutOfOrder (b :: rest)
  | _ => false

/-- The loop of `apply_mutations_deterministic`: `seen` holds the write ids of this batch,
`applied` counts, `drift` is the drift flag. Both sets record the write id before the
mutation is applied. -/
def applyLoop (default : CollectionName) (e : RangoEngine σ ω) (seen : List String)
    (applied : ℕ) (drift : Bool) :
    List Mutation → Except RangoError (ℕ × Bool) × RangoEngine σ ω
  | [] => (.ok (applied, drift), e)
  | m :: rest =>
    match m.validateMetadata with
    | .error err => (.error (.sync ("invalid mutation metadata: " ++ err)), e)
    | .ok () =>
      if m.writeId ≠ "" ∧ m.writeId ∈ seen then applyLoop default e seen applied true rest
      else if m.writeId ≠ "" ∧ m.writeId ∈ e.appliedWriteIds then
        applyLoop default e (m.writeId :: seen) applied true rest
      else
        let seen := if m.writeId ≠ "" then m.writeId :: seen else seen
        let e := if m.writeId ≠ "" then
          { e with appliedWriteIds := m.writeId :: e.appliedWriteIds } else e
        match e.applyRemoteMutation (mutationCollection default m)
            (mutationDocument e.nodeId m) with
        | (.error err, e) => (.error err, e)
        | (.ok (), e) => applyLoop default e seen (applied + 1) drift rest

/-- `RangoEngine::apply_mutations_deterministic`. -/
def applyMutationsDeterministic (e : RangoEngine σ ω) (default : CollectionName)
    (mutations : List Mutation) : Except RangoError ℕ × RangoEngine σ ω :=
  match applyLoop default e [] 0 (receivedOutOfOrder mutations)
      (mutations.insertionSort CanonicalLe) with
  | (.error err, e) => (.error err, e)
  | (.ok (applied, drift), e) =>
    (.ok applied,
      if drift then { e with replayDriftDetections := e.replayDriftDetections + 1 } else e)

/-! ## Snapshots -/

/-- `RangoEngine::create_snapshot`; `now` is the clock's reading. -/
def createSnapshot (e : RangoEngine σ ω) (c : CollectionName) (tenantId snapshotId : String)
    (baseSeq : ℕ) (now : DateTime) : Except RangoError SnapshotUnit × RangoEngine σ ω :=
  match e.findAllRaw c with
  | (.error err, e) => (.error err, e)
  | (.ok state, e) =>
    (.ok { snapshotId, tenantId, nameSpace := c.name, baseSeq, createdAt := now, state }, e)

/-- The wipe: delete every listed document by the id it carries. -/
def wipe (c : CollectionName) (e : RangoEngine σ ω) :
    List Document → Except RangoError Unit × RangoEngine σ ω
  | [] => (.ok (), e)
  | doc :: rest =>
    match doc.get "_id" with
    | none => wipe c e rest
    | some idBson =>
      match e.storageDelete c (DocumentId.fromBson idBson) with
      | (.error err, e) => (.error err, e)
      | (.ok _, e) => wipe c e rest

/-- The refill: put every listed document under the id it carries. -/
def refill (c : CollectionName) (e : RangoEngine σ ω) :
    List Document → Except RangoError Unit × RangoEngine σ ω
  | [] => (.ok (), e)
  | doc :: rest =>
    match doc.get "_id" with
    | none => refill c e rest
    | some idBson =>
      match e.storagePut c (DocumentId.fromBson idBson) doc with
      | (.error err, e) => (.error err, e)
      | (.ok _, e) => refill c e rest

/-- `RangoEngine::restore_from_snapshot`. -/
def restoreFromSnapshot (e : RangoEngine σ ω) (c : CollectionName) (snapshot : SnapshotUnit)
    (replay : List Mutation) : Except RangoError ℕ × RangoEngine σ ω :=
  if snapshot.nameSpace ≠ c.name then
    (.error (.conflict "snapshot namespace does not match collection"), e)
  else
    match e.findAllRaw c with
    | (.error err, e) => (.error err, e)
    | (.ok existing, e) =>
      match wipe c e existing with
      | (.error err, e) => (.error err, e)
      | (.ok (), e) =>
        match refill c e snapshot.state with
        | (.error err, e) => (.error err, e)
        | (.ok (), e) => e.applyMutationsDeterministic c replay

/-- `RangoEngine::rollback_to_snapshot`; `now` is the clock's reading. -/
def rollbackToSnapshot (e : RangoEngine σ ω) (c : CollectionName) (snapshot : SnapshotUnit)
    (rollback : RollbackUnit) (replayWindow : List Mutation) (now : DateTime) :
    Except RangoError (ℕ × RollbackAudit) × RangoEngine σ ω :=
  if rollback.snapshotId ≠ snapshot.snapshotId then
    (.error (.conflict "rollback snapshot_id does not match provided snapshot"), e)
  else if rollback.targetSeq < snapshot.baseSeq then
    (.error (.conflict "rollback target_seq cannot be below snapshot base_seq"), e)
  else if snapshot.nameSpace ≠ c.name then
    (.error (.conflict "snapshot namespace does not match collection"), e)
  else
    match e.restoreFromSnapshot c snapshot
        (replayWindow.filter fun m => m.seq ≤ rollback.targetSeq) with
    | (.error err, e) => (.error err, e)
    | (.ok applied, e) => (.ok (applied, { rollback, appliedAt := now }), e)

end Apply

/-! ## Garbage collection -/

/-- The loop of `gc_deleted` over what the scan found; `removed` counts. -/
def gcLoop (c : CollectionName) (e : RangoEngine σ ω) (removed : ℕ) :
    List (Except RangoError Document) → Except RangoError ℕ × RangoEngine σ ω
  | [] => (.ok removed, e)
  | .error err :: _ => (.error err, e)
  | .ok doc :: rest =>
    if isDeleted doc then
      match doc.get "_id" with
      | none => gcLoop c e removed rest
      | some idBson =>
        match e.storageDelete c (DocumentId.fromBson idBson) with
        | (.error err, e) => (.error err, e)
        | (.ok _, e) => gcLoop c e (removed + 1) rest
    else gcLoop c e removed rest

/-- `RangoEngine::gc_deleted`. -/
def gcDeleted (e : RangoEngine σ ω) (c : CollectionName) :
    Except RangoError ℕ × RangoEngine σ ω :=
  match e.storageScan c with
  | (.error err, e) => (.error err, e)
  | (.ok results, e) => gcLoop c e 0 results

end RangoEngine
end Rango
