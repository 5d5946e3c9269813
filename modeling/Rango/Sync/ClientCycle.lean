import Rango.Core.LocalWrites
import Rango.Sync.Scheduler

/-!
# A cycle of a whole client

`run_once` once more, on all that a client keeps: the oplog and the storage of its engine beside
the queue, the checkpoint and the server. Every call gets the client and hands back what it leaves
of it. `runOnce_eq`: the cycle is `SyncScheduler.runOnce` on the part it works on, and it leaves
the engine as it is.
-/

namespace Rango

/-- A client: the engine of its node, and what its sync cycles change. -/
structure Client (σ ω κ χ ν : Type) where
  engine : RangoEngine σ ω
  sync : SyncState κ χ ν

namespace Client

variable {σ ω κ χ ν : Type}

/-! ## The calls of a cycle -/

section
variable [SyncQueue κ]

/-- `queue.next_batch`. -/
def nextBatch (limit : ℕ) (c : Client σ ω κ χ ν) :
    Except RangoError (List SyncQueueEntry) × Client σ ω κ χ ν :=
  let (result, queue) := SyncQueue.nextBatch limit c.sync.queue
  (result, { c with sync.queue := queue })

/-- `queue.mark_acked`. -/
def markAcked (seqs : List ℕ) (c : Client σ ω κ χ ν) :
    Except RangoError Unit × Client σ ω κ χ ν :=
  let (result, queue) := SyncQueue.markAcked seqs c.sync.queue
  (result, { c with sync.queue := queue })

/-- `queue.mark_failed`. -/
def markFailed (seq : ℕ) (error : String) (c : Client σ ω κ χ ν) :
    Except RangoError Unit × Client σ ω κ χ ν :=
  let (result, queue) := SyncQueue.markFailed seq error c.sync.queue
  (result, { c with sync.queue := queue })

end

/-- `checkpoint_store.get`. -/
def getCheckpoint [CheckpointStore χ] (c : Client σ ω κ χ ν) :
    Except RangoError ℕ × Client σ ω κ χ ν :=
  (CheckpointStore.get c.sync.checkpoint, c)

/-- `checkpoint_store.set`. -/
def setCheckpoint [CheckpointStore χ] (checkpoint : ℕ) (c : Client σ ω κ χ ν) :
    Except RangoError Unit × Client σ ω κ χ ν :=
  let (result, store) := CheckpointStore.set checkpoint c.sync.checkpoint
  (result, { c with sync.checkpoint := store })

/-- `oplog.read_since`. -/
def readSince [Oplog ω] (seq limit : ℕ) (c : Client σ ω κ χ ν) :
    Except RangoError (List OplogEntry) × Client σ ω κ χ ν :=
  (Oplog.readSince seq limit c.engine.oplog, c)

section
variable [SyncServer ν]

/-- `client.push`. -/
def push (nodeId : String) (mutations : List Mutation) (checkpoint : ℕ) (c : Client σ ω κ χ ν) :
    Except RangoError PushResponse × Client σ ω κ χ ν :=
  let (result, server) := SyncClient.push nodeId mutations checkpoint c.sync.server
  (result, { c with sync.server := server })

/-- `client.pull`. -/
def pull (nodeId : String) (checkpoint : ℕ) (c : Client σ ω κ χ ν) :
    Except RangoError PullResponse × Client σ ω κ χ ν :=
  let (result, server) := SyncClient.pull nodeId checkpoint c.sync.server
  (result, { c with sync.server := server })

end

/-! ## The cycle -/

/-- The loop over the batch after a push that failed. -/
def markAllFailed [SyncQueue κ] (error : String) :
    List ℕ → Client σ ω κ χ ν → Except RangoError Unit × Client σ ω κ χ ν
  | [], c => (.ok (), c)
  | seq :: rest, c =>
    match c.markFailed seq error with
    | (.error err, c) => (.error err, c)
    | (.ok (), c) => markAllFailed error rest c

section
variable [SyncQueue κ] [CheckpointStore χ]

/-- What follows a push that was answered. -/
def pushAnswered (resp : PushResponse) (c : Client σ ω κ χ ν) :
    Except RangoError ℕ × Client σ ω κ χ ν :=
  match c.markAcked resp.acceptedSeqs with
  | (.error err, c) => (.error err, c)
  | (.ok (), c) =>
    match c.setCheckpoint resp.newCheckpoint with
    | (.error err, c) => (.error err, c)
    | (.ok (), c) => (.ok resp.acceptedSeqs.length, c)

/-- What follows a push that failed. -/
def pushFailed (seqs : List ℕ) (err : RangoError) (c : Client σ ω κ χ ν) :
    Except RangoError ℕ × Client σ ω κ χ ν :=
  match c.markAllFailed err.display seqs with
  | (.error err, c) => (.error err, c)
  | (.ok (), c) => (.ok 0, c)

variable [Oplog ω] [SyncServer ν]

/-- The push of a batch. -/
def pushBatch (nodeId : String) (seqs : List ℕ) (c : Client σ ω κ χ ν) :
    Except RangoError ℕ × Client σ ω κ χ ν :=
  match c.readSince (seqs.headD 0) seqs.length with
  | (.error err, c) => (.error err, c)
  | (.ok entries, c) =>
    match c.getCheckpoint with
    | (.error err, c) => (.error err, c)
    | (.ok checkpoint, c) =>
      match c.push nodeId (entries.map OplogEntry.mutation) checkpoint with
      | (.ok resp, c) => c.pushAnswered resp
      | (.error err, c) => c.pushFailed seqs err

/-- The first part of `run_once`. -/
def pushPhase (config : SyncConfig) (nodeId : String) (c : Client σ ω κ χ ν) :
    Except RangoError ℕ × Client σ ω κ χ ν :=
  match c.nextBatch config.batchSize with
  | (.error err, c) => (.error err, c)
  | (.ok batch, c) =>
    if batch = [] then (.ok 0, c) else c.pushBatch nodeId (batch.map SyncQueueEntry.seq)

omit [SyncQueue κ] [Oplog ω] in
/-- The second part of `run_once`. The mutations of the response are counted. -/
def pullPhase (nodeId : String) (c : Client σ ω κ χ ν) :
    Except RangoError ℕ × Client σ ω κ χ ν :=
  match c.getCheckpoint with
  | (.error err, c) => (.error err, c)
  | (.ok checkpoint, c) =>
    match c.pull nodeId checkpoint with
    | (.error _, c) => (.ok 0, c)
    | (.ok resp, c) =>
      match c.setCheckpoint resp.newCheckpoint with
      | (.error err, c) => (.error err, c)
      | (.ok (), c) => (.ok resp.mutations.length, c)

/-- `SyncScheduler::run_once`. -/
def runOnce (config : SyncConfig) (nodeId : String) (c : Client σ ω κ χ ν) :
    Except RangoError SyncResult × Client σ ω κ χ ν :=
  match c.pushPhase config nodeId with
  | (.error err, c) => (.error err, c)
  | (.ok pushed, c) =>
    match c.pullPhase nodeId with
    | (.error err, c) => (.error err, c)
    | (.ok pulled, c) => (.ok ⟨pushed, pulled⟩, c)

end

/-! ## The part that a cycle works on -/

/-- The outcome of a call on the part of a client that its cycles work on. -/
def withSync {α : Type} (c : Client σ ω κ χ ν) (out : α × SyncState κ χ ν) :
    α × Client σ ω κ χ ν :=
  (out.1, { c with sync := out.2 })

@[simp] lemma withSync_fst {α : Type} (c : Client σ ω κ χ ν) (out : α × SyncState κ χ ν) :
    (c.withSync out).1 = out.1 := rfl

@[simp] lemma withSync_sync {α : Type} (c : Client σ ω κ χ ν) (out : α × SyncState κ χ ν) :
    (c.withSync out).2.sync = out.2 := rfl

@[simp] lemma withSync_engine {α : Type} (c : Client σ ω κ χ ν) (out : α × SyncState κ χ ν) :
    (c.withSync out).2.engine = c.engine := rfl

section
variable [SyncQueue κ]

lemma markAllFailed_eq (error : String) (seqs : List ℕ) (c : Client σ ω κ χ ν) :
    c.markAllFailed error seqs =
      ((SyncScheduler.markAllFailed error c.sync.queue seqs).1,
        { c with sync.queue := (SyncScheduler.markAllFailed error c.sync.queue seqs).2 }) := by
  induction seqs generalizing c with
  | nil => rfl
  | cons seq rest ih =>
    rw [markAllFailed, markFailed, SyncScheduler.markAllFailed]
    rcases SyncQueue.markFailed seq error c.sync.queue with ⟨err | _, queue⟩
    · rfl
    · exact ih _

variable [CheckpointStore χ]

lemma pushAnswered_eq (resp : PushResponse) (c : Client σ ω κ χ ν) :
    c.pushAnswered resp = c.withSync (SyncScheduler.pushAnswered c.sync resp) := by
  rw [pushAnswered, markAcked, SyncScheduler.pushAnswered]
  rcases SyncQueue.markAcked resp.acceptedSeqs c.sync.queue with ⟨err | _, queue⟩
  · rfl
  · dsimp only
    rw [setCheckpoint, SyncScheduler.setCheckpoint]
    dsimp only
    rcases CheckpointStore.set resp.newCheckpoint c.sync.checkpoint with ⟨err | _, store⟩
    · rfl
    · rfl

omit [CheckpointStore χ] in
lemma pushFailed_eq (seqs : List ℕ) (err : RangoError) (c : Client σ ω κ χ ν) :
    c.pushFailed seqs err = c.withSync (SyncScheduler.pushFailed c.sync seqs err) := by
  rw [pushFailed, markAllFailed_eq, SyncScheduler.pushFailed]
  rcases SyncScheduler.markAllFailed err.display c.sync.queue seqs with ⟨err | _, queue⟩
  · rfl
  · rfl

variable [Oplog ω] [SyncServer ν]

lemma pushBatch_eq (nodeId : String) (seqs : List ℕ) (c : Client σ ω κ χ ν) :
    c.pushBatch nodeId seqs =
      c.withSync (SyncScheduler.pushBatch nodeId c.engine.oplog c.sync seqs) := by
  rw [pushBatch, readSince, SyncScheduler.pushBatch]
  rcases Oplog.readSince (seqs.headD 0) seqs.length c.engine.oplog with err | entries
  · rfl
  · dsimp only
    rw [getCheckpoint]
    rcases CheckpointStore.get c.sync.checkpoint with err | checkpoint
    · rfl
    · dsimp only
      rw [push]
      rcases SyncClient.push nodeId (entries.map OplogEntry.mutation) checkpoint c.sync.server
        with ⟨err | resp, server⟩
      · exact pushFailed_eq ..
      · exact pushAnswered_eq ..

lemma pushPhase_eq (config : SyncConfig) (nodeId : String) (c : Client σ ω κ χ ν) :
    c.pushPhase config nodeId =
      c.withSync (SyncScheduler.pushPhase config nodeId c.engine.oplog c.sync) := by
  rw [pushPhase, nextBatch, SyncScheduler.pushPhase]
  rcases SyncQueue.nextBatch config.batchSize c.sync.queue with ⟨err | batch, queue⟩
  · rfl
  · dsimp only
    split_ifs
    · rfl
    · exact pushBatch_eq ..

omit [SyncQueue κ] [Oplog ω] in
lemma pullPhase_eq (nodeId : String) (c : Client σ ω κ χ ν) :
    c.pullPhase nodeId = c.withSync (SyncScheduler.pullPhase nodeId c.sync) := by
  rw [pullPhase, getCheckpoint, SyncScheduler.pullPhase]
  rcases CheckpointStore.get c.sync.checkpoint with err | checkpoint
  · rfl
  · dsimp only
    rw [pull]
    rcases SyncClient.pull nodeId checkpoint c.sync.server with ⟨err | resp, server⟩
    · rfl
    · dsimp only
      rw [setCheckpoint, SyncScheduler.setCheckpoint]
      dsimp only
      rcases CheckpointStore.set resp.newCheckpoint c.sync.checkpoint with ⟨err | _, store⟩
      · rfl
      · rfl

/-- **A cycle** works on the queue, the checkpoint and the server, as `SyncScheduler.runOnce`
does, and on nothing else. -/
theorem runOnce_eq (config : SyncConfig) (nodeId : String) (c : Client σ ω κ χ ν) :
    c.runOnce config nodeId =
      c.withSync (SyncScheduler.runOnce config nodeId c.engine.oplog c.sync) := by
  rw [runOnce, pushPhase_eq, SyncScheduler.runOnce]
  rcases SyncScheduler.pushPhase config nodeId c.engine.oplog c.sync with ⟨err | pushed, s⟩
  · rfl
  · dsimp only [withSync]
    rw [pullPhase_eq]
    dsimp only
    rcases SyncScheduler.pullPhase nodeId s with ⟨err | pulled, s'⟩
    · rfl
    · rfl

/-- It leaves the oplog and the storage of the engine. -/
lemma runOnce_engine (config : SyncConfig) (nodeId : String) (c : Client σ ω κ χ ν) :
    (c.runOnce config nodeId).2.engine = c.engine := by
  rw [runOnce_eq, withSync_engine]

end

end Client
end Rango
