import Rango.Core.Conflicts
import Rango.Core.Find
import Rango.Core.LocalWrites

/-!
# Requests to an engine

Every method of `RangoEngine` on documents as data, with its answer and the engine it leaves.
-/

namespace Rango

/-- One call of a method, with the readings of the clock and the generators it takes. -/
inductive EngineRequest where
  | insertOne (c : CollectionName) (doc : Document) (t : WriteClock)
  | updateOne (c : CollectionName) (id : DocumentId) (update : Document) (t : WriteClock)
  | deleteOne (c : CollectionName) (id : DocumentId) (t : WriteClock)
  | applyRemoteMutation (c : CollectionName) (doc : Document)
  | applyMutationsDeterministic (default : CollectionName) (mutations : List Mutation)
  | createSnapshot (c : CollectionName) (tenantId snapshotId : String) (baseSeq : ℕ)
      (now : DateTime)
  | restoreFromSnapshot (c : CollectionName) (snapshot : SnapshotUnit) (replay : List Mutation)
  | rollbackToSnapshot (c : CollectionName) (snapshot : SnapshotUnit) (rollback : RollbackUnit)
      (replayWindow : List Mutation) (now : DateTime)
  | gcDeleted (c : CollectionName)
  | listConflicts (c : CollectionName) (draw : ℕ → List UInt8)
  | resolveConflict (c : CollectionName) (id : DocumentId) (chosenRev : Revision)
  | findOne (c : CollectionName) (id : DocumentId)
  | find (c : CollectionName) (filter : Document) (projection : Option Document)
      (sort : Option (String × Bool)) (skip limit : Option ℕ)

/-- What a method returns. -/
inductive EngineAnswer where
  | id (r : Except RangoError DocumentId)
  | changed (r : Except Fault Bool)
  | deleted (r : Except RangoError Bool)
  | done (r : Except RangoError Unit)
  | count (r : Except RangoError ℕ)
  | snapshot (r : Except RangoError SnapshotUnit)
  | rolledBack (r : Except RangoError (ℕ × RollbackAudit))
  | conflicts (r : Except RangoError (List (DocumentId × List Document)))
  | found (r : Except RangoError (Option Document))
  | cursor (r : Except Fault (List (Except RangoError Document)))

/-- The collections that a request can come upon. -/
def EngineRequest.names : EngineRequest → List CollectionName
  | .insertOne c _ _ => [c]
  | .updateOne c _ _ _ => [c]
  | .deleteOne c _ _ => [c]
  | .applyRemoteMutation c _ => [c]
  | .applyMutationsDeterministic default mutations =>
    mutations.map (RangoEngine.mutationCollection default)
  | .createSnapshot c _ _ _ _ => [c]
  | .restoreFromSnapshot c _ replay => c :: replay.map (RangoEngine.mutationCollection c)
  | .rollbackToSnapshot c _ _ window _ => c :: window.map (RangoEngine.mutationCollection c)
  | .gcDeleted c => [c]
  | .listConflicts c _ => [c]
  | .resolveConflict c _ _ => [c]
  | .findOne c _ => [c]
  | .find c _ _ _ _ _ => [c]

namespace RangoEngine

variable {σ ω : Type}

/-- What a method returns, as an answer, and the engine it leaves. -/
def answered {α : Type} (answer : α → EngineAnswer) (r : α × RangoEngine σ ω) :
    EngineAnswer × RangoEngine σ ω := (answer r.1, r.2)

variable [Formatting] [StorageEngine σ] [Oplog ω] [BsonCodec] [MutationHasher] [Arithmetic]
  [BsonTraits] [SliceSort]

/-- The answer to a request, and the engine after it. -/
def serve (e : RangoEngine σ ω) : EngineRequest → EngineAnswer × RangoEngine σ ω
  | .insertOne c doc t => answered .id (e.insertOne c doc t)
  | .updateOne c id update t => answered .changed (e.updateOne c id update t)
  | .deleteOne c id t => answered .deleted (e.deleteOne c id t)
  | .applyRemoteMutation c doc => answered .done (e.applyRemoteMutation c doc)
  | .applyMutationsDeterministic default mutations =>
    answered .count (e.applyMutationsDeterministic default mutations)
  | .createSnapshot c tenantId snapshotId baseSeq now =>
    answered .snapshot (e.createSnapshot c tenantId snapshotId baseSeq now)
  | .restoreFromSnapshot c snapshot replay =>
    answered .count (e.restoreFromSnapshot c snapshot replay)
  | .rollbackToSnapshot c snapshot rollback window now =>
    answered .rolledBack (e.rollbackToSnapshot c snapshot rollback window now)
  | .gcDeleted c => answered .count (e.gcDeleted c)
  | .listConflicts c draw => answered .conflicts (e.listConflicts c draw)
  | .resolveConflict c id chosenRev => answered .done (e.resolveConflict c id chosenRev)
  | .findOne c id => (.found (e.findOne c id), (e.storageGet c id).2)
  | .find c filter projection sort skip limit =>
    answered .cursor (e.find c filter projection sort skip limit)

/-- The engine after a request. -/
def afterRequest (e : RangoEngine σ ω) (x : EngineRequest) : RangoEngine σ ω := (e.serve x).2

end RangoEngine
end Rango
