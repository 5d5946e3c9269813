import Rango.Types.Codec
import Rango.Oplog.Log
import Rango.Core.Engine

/-!
# Local writes

`insert_one`, `update_one` and `delete_one`: each stores a document and appends a mutation
to the oplog. The clock, the revision counter and the id generator are read through
`WriteClock`, one for each call. `EngineStep` puts them together with the application of
batches, and `RangoEngine.run` is what a run of steps leaves.
-/

namespace Rango

/-- Arithmetic that the build and the processor decide: whether integer overflow panics,
and the addition of doubles. -/
class Arithmetic where
  overflowChecks : Bool
  f64Add : F64 → F64 → F64

/-- An arithmetic for worked examples: the checks of a debug build. -/
@[reducible] def Arithmetic.sample : Arithmetic :=
  ⟨true, fun x y => ⟨(Float.ofBits x.bits + Float.ofBits y.bits).toBits⟩⟩

/-- The readings of one local write, in the order in which the code takes them. -/
structure WriteClock where
  /-- the bytes `Uuid::now_v7` draws when the document has no `_id` -/
  uuid : List UInt8
  /-- the milliseconds and the counter of `Revision::now` -/
  revisionMs : ℕ
  revisionCounter : ℕ
  docUpdatedAt : DateTime
  mutationAt : DateTime
  createdAt : DateTime
  updatedAt : DateTime
  entryAt : DateTime

/-- How a call ends that does not return a value: with an error, or in a panic. -/
inductive Fault where
  | error (err : RangoError)
  | panic
deriving DecidableEq

/-! ## Updates -/

section Update
variable [Arithmetic]

/-- `i + j` at a signed type of the given width. -/
def addSigned (width : ℕ) (i j : ℤ) : Except Fault ℤ :=
  if (i + j).bmod (2 ^ width) = i + j then .ok (i + j)
  else if Arithmetic.overflowChecks then .error .panic
  else .ok ((i + j).bmod (2 ^ width))

/-- One field of `$inc`. A value of another type than the field's leaves the field. -/
def applyInc (doc : Document) (k : String) (v : Bson) : Except Fault Document :=
  match doc.get k, v with
  | some (.int32 i), .int32 vi => (addSigned 32 i vi).map fun r => doc.insert k (.int32 r)
  | some (.int64 i), .int64 vi => (addSigned 64 i vi).map fun r => doc.insert k (.int64 r)
  | some (.double d), .double vd => .ok (doc.insert k (.double (Arithmetic.f64Add d vd)))
  | _, _ => .ok doc

/-- One operator of an update document. An operand that is no document is ignored. -/
def applyOperator (doc : Document) (key : String) (value : Bson) : Except Fault Document :=
  if key = "$set" then
    match value.asDocument with
    | some setDoc => .ok (setDoc.entries.foldl (fun doc kv => doc.insert kv.1 kv.2) doc)
    | none => .ok doc
  else if key = "$unset" then
    match value.asDocument with
    | some unsetDoc => .ok (unsetDoc.entries.foldl (fun doc kv => doc.remove kv.1) doc)
    | none => .ok doc
  else if key = "$inc" then
    match value.asDocument with
    | some incDoc => incDoc.entries.foldlM (fun doc kv => applyInc doc kv.1 kv.2) doc
    | none => .ok doc
  else .error (.error (.invalidQueryOperator key))

/-- `apply_update`. -/
def applyUpdate (doc update : Document) : Except Fault Document :=
  update.entries.foldlM (fun doc kv => applyOperator doc kv.1 kv.2) doc

end Update

namespace RangoEngine

variable {σ ω : Type} [Formatting] [StorageEngine σ] [Oplog ω] [BsonCodec] [MutationHasher]

/-- `RangoEngine::validate_document_size`. -/
def validateDocumentSize (e : RangoEngine σ ω) (doc : Document) : Except RangoError Unit :=
  match BsonCodec.toWriter doc with
  | .error err => .error (.storage err)
  | .ok bytes =>
    if bytes.length > e.config.maxDocumentSizeBytes then
      .error (.documentTooLarge bytes.length e.config.maxDocumentSizeBytes)
    else .ok ()

/-- The fields every local write puts on the document. -/
def stamp (nodeId : String) (rev : Revision) (t : WriteClock) (doc : Document) : Document :=
  ((doc.insert "_rev" (.string rev.text)).insert "_updated_at" (.dateTime t.docUpdatedAt)).insert
    "_source_node" (.string nodeId)

/-- The mutation a local write reports, its write id taken from the rest of it. -/
def localMutation (e : RangoEngine σ ω) (op : MutationOp) (c : CollectionName) (id : DocumentId)
    (patch : Option Document) (rev : Revision) (t : WriteClock) : Mutation :=
  let m : Mutation :=
    { op, collection := c.name, docId := id, patch, seq := 0, timestamp := t.mutationAt, rev
      writeId := "pending-local-write-id"
      metadata :=
        { id, nameSpace := c.name, tenantId := "default", type := "state", rev
          createdAt := t.createdAt, updatedAt := t.updatedAt, source := e.nodeId
          actor := e.nodeId, lineage := id.toString, schemaVersion := 1, trustScore := F64.one
          verified := some true, expiresAt := none } }
  { m with writeId := m.contentWriteId }

/-- The end of every local write: check the mutation's metadata and append it. -/
def report (e : RangoEngine σ ω) (m : Mutation) (t : WriteClock) :
    Except RangoError Unit × RangoEngine σ ω :=
  match m.validateMetadata with
  | .error err => (.error (.storage ("invalid local mutation metadata: " ++ err)), e)
  | .ok () =>
    match Oplog.append { seq := 0, timestamp := t.entryAt, mutation := m, origin := .localWrite,
                         applied := true, snapshotAnchor := none } e.oplog with
    | (.error err, oplog) => (.error err, { e with oplog })
    | (.ok _, oplog) => (.ok (), { e with oplog })

/-- The id of the document an insert stores. -/
def insertId (doc : Document) (t : WriteClock) : DocumentId :=
  match doc.get "_id" with
  | some b => DocumentId.fromBson b
  | none => DocumentId.newUuidV7 t.uuid

/-- `RangoEngine::insert_one`. -/
def insertOne (e : RangoEngine σ ω) (c : CollectionName) (doc : Document) (t : WriteClock) :
    Except RangoError DocumentId × RangoEngine σ ω :=
  let id := insertId doc t
  let rev := Revision.new t.revisionMs t.revisionCounter e.nodeId
  match e.validateDocumentSize doc with
  | .error err => (.error err, e)
  | .ok () =>
    let doc := (stamp e.nodeId rev t (doc.insert "_id" id.bson)).remove "_deleted"
    match e.validateDocumentSize doc with
    | .error err => (.error err, e)
    | .ok () =>
      match e.storagePut c id doc with
      | (.error err, e) => (.error err, e)
      | (.ok (), e) =>
        match e.report (e.localMutation .insert c id (some doc) rev t) t with
        | (.error err, e) => (.error err, e)
        | (.ok (), e) => (.ok id, e)

/-- `RangoEngine::update_one`. -/
def updateOne [Arithmetic] (e : RangoEngine σ ω) (c : CollectionName) (id : DocumentId)
    (update : Document) (t : WriteClock) : Except Fault Bool × RangoEngine σ ω :=
  match e.storageGet c id with
  | (.error err, e) => (.error (.error err), e)
  | (.ok none, e) => (.ok false, e)
  | (.ok (some doc), e) =>
    if isDeleted doc then (.ok false, e)
    else
      match applyUpdate doc update with
      | .error fault => (.error fault, e)
      | .ok doc =>
        let rev := Revision.new t.revisionMs t.revisionCounter e.nodeId
        let doc := stamp e.nodeId rev t doc
        match e.validateDocumentSize doc with
        | .error err => (.error (.error err), e)
        | .ok () =>
          match e.storagePut c id doc with
          | (.error err, e) => (.error (.error err), e)
          | (.ok (), e) =>
            match e.report (e.localMutation .update c id (some doc) rev t) t with
            | (.error err, e) => (.error (.error err), e)
            | (.ok (), e) => (.ok true, e)

/-- `RangoEngine::delete_one`. The stored document keeps its fields; the mutation carries
no patch. -/
def deleteOne (e : RangoEngine σ ω) (c : CollectionName) (id : DocumentId) (t : WriteClock) :
    Except RangoError Bool × RangoEngine σ ω :=
  match e.storageGet c id with
  | (.error err, e) => (.error err, e)
  | (.ok none, e) => (.ok false, e)
  | (.ok (some doc), e) =>
    let rev := Revision.new t.revisionMs t.revisionCounter e.nodeId
    let doc := stamp e.nodeId rev t (doc.insert "_deleted" (.boolean true))
    match e.storagePut c id doc with
    | (.error err, e) => (.error err, e)
    | (.ok (), e) =>
      match e.report (e.localMutation .delete c id none rev t) t with
      | (.error err, e) => (.error err, e)
      | (.ok (), e) => (.ok true, e)

end RangoEngine

/-! ## Runs -/

/-- One call on an engine that changes its documents. -/
inductive EngineStep where
  | insert (c : CollectionName) (doc : Document) (t : WriteClock)
  | update (c : CollectionName) (id : DocumentId) (update : Document) (t : WriteClock)
  | delete (c : CollectionName) (id : DocumentId) (t : WriteClock)
  | applyBatch (default : CollectionName) (mutations : List Mutation)

namespace RangoEngine

variable {σ ω : Type} [Formatting] [StorageEngine σ] [Oplog ω] [BsonCodec] [MutationHasher]
  [Arithmetic]

/-- The engine after one step, whatever the call returned. -/
def step (e : RangoEngine σ ω) : EngineStep → RangoEngine σ ω
  | .insert c doc t => (e.insertOne c doc t).2
  | .update c id update t => (e.updateOne c id update t).2
  | .delete c id t => (e.deleteOne c id t).2
  | .applyBatch default mutations => (e.applyMutationsDeterministic default mutations).2

/-- The engine after a run of steps. -/
def run (e : RangoEngine σ ω) (steps : List EngineStep) : RangoEngine σ ω := steps.foldl step e

end RangoEngine
end Rango
