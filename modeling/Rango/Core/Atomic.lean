import Rango.Lib.Interleaving
import Rango.Core.IncrementTheorems

/-!
# Updates in atomic steps

The methods of an engine take `&self`, so one engine can be used from several threads. Each call on
the storage and on the oplog takes a lock of its own; `update_one` holds none over its calls.
`EngineOp` lists these calls and `RangoEngine.updateOneSteps` is `update_one` as a program over
them. Run alone, it is `update_one` as a function (`RangoEngine.run_updateOneSteps`).
-/

namespace Rango

open Interleaving

/-- The calls that are atomic by themselves. -/
inductive EngineOp where
  | get (c : CollectionName) (id : DocumentId)
  | put (c : CollectionName) (id : DocumentId) (doc : Document)
  | append (entry : OplogEntry)

/-- What an atomic call answers. -/
@[reducible] def EngineOp.Res : EngineOp → Type
  | .get .. => Except RangoError (Option Document)
  | .put .. => Except RangoError Unit
  | .append _ => Except RangoError ℕ

/-- A method as a program over the atomic calls. -/
abbrev EngineProg (α : Type) : Type := Prog EngineOp.Res α

namespace RangoEngine

variable {σ ω : Type}

/-- The program of one atomic call. -/
def atomically (o : EngineOp) : EngineProg o.Res := .request o

section
variable [Formatting] [StorageEngine σ] [Oplog ω]

/-- One atomic call. -/
def perform : (o : EngineOp) → RangoEngine σ ω → o.Res × RangoEngine σ ω
  | .get c id, e => e.storageGet c id
  | .put c id doc, e => e.storagePut c id doc
  | .append entry, e =>
    ((Oplog.append entry e.oplog).1, { e with oplog := (Oplog.append entry e.oplog).2 })

end

section
variable [Formatting] [MutationHasher]

/-- The end of every local write. -/
def reportSteps (m : Mutation) (t : WriteClock) : EngineProg (Except RangoError Unit) :=
  match m.validateMetadata with
  | .error err => pure (.error (.storage ("invalid local mutation metadata: " ++ err)))
  | .ok () => do
    match ← atomically (.append { seq := 0, timestamp := t.entryAt, mutation := m
                                  origin := .localWrite, applied := true
                                  snapshotAnchor := none }) with
    | .error err => pure (.error err)
    | .ok _ => pure (.ok ())

/-- The end of `update_one`: the document is put and the mutation reported. -/
def commitSteps (e : RangoEngine σ ω) (c : CollectionName) (id : DocumentId) (rev : Revision)
    (doc : Document) (t : WriteClock) : EngineProg (Except Fault Bool) := do
  match ← atomically (.put c id doc) with
  | .error err => pure (.error (.error err))
  | .ok () => do
    match ← reportSteps (e.localMutation .update c id (some doc) rev t) t with
    | .error err => pure (.error (.error err))
    | .ok () => pure (.ok true)

variable [BsonCodec] [Arithmetic]

/-- `update_one` once it has read the document. -/
def foundSteps (e : RangoEngine σ ω) (c : CollectionName) (id : DocumentId) (old : Document)
    (update : Document) (t : WriteClock) : EngineProg (Except Fault Bool) :=
  if isDeleted old then pure (.ok false)
  else
    match applyUpdate old update with
    | .error fault => pure (.error fault)
    | .ok new =>
      let rev := Revision.new t.revisionMs t.revisionCounter e.nodeId
      let doc := stamp e.nodeId rev t new
      match e.validateDocumentSize doc with
      | .error err => pure (.error (.error err))
      | .ok () => commitSteps e c id rev doc t

/-- `RangoEngine::update_one`. Of the engine it reads the node id and the configuration, which no
call changes. -/
def updateOneSteps (e : RangoEngine σ ω) (c : CollectionName) (id : DocumentId)
    (update : Document) (t : WriteClock) : EngineProg (Except Fault Bool) := do
  match ← atomically (.get c id) with
  | .error err => pure (.error (.error err))
  | .ok none => pure (.ok false)
  -- no lock is held from the answer to the put
  | .ok (some old) => foundSteps e c id old update t

end

/-! ## Run alone -/

section
variable [Formatting] [FallibleStorage σ] [Oplog ω] (e : RangoEngine σ ω)

lemma run_atomically_bind {α : Type} (o : EngineOp) (f : o.Res → EngineProg α) :
    (atomically o >>= f).run perform e = (f (e.perform o).1).run perform (e.perform o).2 := rfl

variable [MutationHasher]

omit [MutationHasher] in
lemma run_reportSteps (m : Mutation) (t : WriteClock) :
    (reportSteps m t).run perform e = e.report m t := by
  unfold reportSteps report
  cases m.validateMetadata with
  | error err => rfl
  | ok _ =>
    simp only [run_atomically_bind e (.append _), perform]
    rcases Oplog.append _ e.oplog with ⟨err | seq, oplog⟩
    · rfl
    · rfl

lemma run_commitSteps {e' : RangoEngine σ ω} (hnode : e'.nodeId = e.nodeId) (c : CollectionName)
    (id : DocumentId) (rev : Revision) (doc : Document) (t : WriteClock) :
    (e.commitSteps c id rev doc t).run perform e' = e'.commitUpdate c id rev doc t := by
  have hmutation : ∀ e'' : RangoEngine σ ω, e''.nodeId = e'.nodeId →
      e.localMutation .update c id (some doc) rev t =
        e''.localMutation .update c id (some doc) rev t := by
    intro e'' hsame
    simp only [localMutation, hsame, hnode]
  rw [commitSteps, run_atomically_bind e' (.put ..), commitUpdate]
  simp only [perform]
  rcases hput : e'.storagePut c id doc with ⟨err | _, e''⟩
  · rfl
  · have hput' : (e'.storagePut c id doc).2 = e'' := congrArg Prod.snd hput
    have hnode' : e''.nodeId = e'.nodeId := by
      rw [← hput']
      rfl
    dsimp only
    rw [Prog.bind_eq, Prog.run_bind, run_reportSteps, hmutation e'' hnode']
    rcases e''.report _ t with ⟨err | _, e₃⟩
    · rfl
    · rfl

variable [BsonCodec] [Arithmetic]

lemma run_foundSteps {e' : RangoEngine σ ω} (hnode : e'.nodeId = e.nodeId)
    (hconfig : e'.config = e.config) (c : CollectionName) (id : DocumentId)
    (old update : Document) (t : WriteClock) :
    (e.foundSteps c id old update t).run perform e' = e'.updateFound c id old update t := by
  have hsize : ∀ doc, e'.validateDocumentSize doc = e.validateDocumentSize doc := by
    intro doc
    rw [validateDocumentSize, validateDocumentSize, hconfig]
  unfold foundSteps updateFound
  split
  · rfl
  · cases applyUpdate old update with
    | error fault => rfl
    | ok new =>
      dsimp only
      rw [hnode, hsize]
      rcases e.validateDocumentSize _ with err | _
      · rfl
      · exact run_commitSteps e hnode c id _ _ t

/-- **Run alone.** The program is `update_one`. -/
theorem run_updateOneSteps (c : CollectionName) (id : DocumentId) (update : Document)
    (t : WriteClock) :
    (e.updateOneSteps c id update t).run perform e = e.updateOne c id update t := by
  rw [updateOneSteps, run_atomically_bind e (.get ..), updateOne]
  simp only [perform]
  rcases hget : e.storageGet c id with ⟨err | _ | old, e'⟩
  · rfl
  · rfl
  · have hget' : (e.storageGet c id).2 = e' := congrArg Prod.snd hget
    exact run_foundSteps e (by rw [← hget']; rfl) (by rw [← hget']; rfl) c id old update t

end
end RangoEngine
end Rango
