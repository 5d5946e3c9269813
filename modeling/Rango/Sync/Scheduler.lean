import Rango.Sync.Client
import Rango.Sync.Queue

/-!
# The sync scheduler

`SyncScheduler::run_once` pushes one batch of the queue and then pulls. Its state is what the
cycle changes: the queue, the stored checkpoint and what answers the client (`SyncState`). The
oplog is only read.
-/

namespace Rango

/-- `SyncConfig`, the field that a cycle reads. -/
structure SyncConfig where
  batchSize : ℕ

/-- `SyncConfig::default`. -/
def SyncConfig.default : SyncConfig := ⟨100⟩

/-- `SyncResult`. -/
structure SyncResult where
  pushed : ℕ
  pulled : ℕ
deriving DecidableEq

/-- What a cycle changes. -/
structure SyncState (κ χ ν : Type) where
  queue : κ
  checkpoint : χ
  server : ν

namespace SyncScheduler

variable {ω κ χ ν : Type}

section
variable [SyncQueue κ]

/-- The loop over the batch after a push that failed. -/
def markAllFailed (error : String) (queue : κ) : List ℕ → Except RangoError Unit × κ
  | [] => (.ok (), queue)
  | seq :: rest =>
    match SyncQueue.markFailed seq error queue with
    | (.error err, queue) => (.error err, queue)
    | (.ok (), queue) => markAllFailed error queue rest

end

section
variable [CheckpointStore χ]

/-- `checkpoint_store.set`. -/
def setCheckpoint (s : SyncState κ χ ν) (checkpoint : ℕ) :
    Except RangoError Unit × SyncState κ χ ν :=
  let (result, store) := CheckpointStore.set checkpoint s.checkpoint
  (result, { s with checkpoint := store })

variable [SyncQueue κ]

/-- What follows a push that was answered. -/
def pushAnswered (s : SyncState κ χ ν) (resp : PushResponse) :
    Except RangoError ℕ × SyncState κ χ ν :=
  match SyncQueue.markAcked resp.acceptedSeqs s.queue with
  | (.error err, queue) => (.error err, { s with queue })
  | (.ok (), queue) =>
    match setCheckpoint { s with queue } resp.newCheckpoint with
    | (.error err, s) => (.error err, s)
    | (.ok (), s) => (.ok resp.acceptedSeqs.length, s)

/-- What follows a push that failed. The cycle goes on. -/
def pushFailed (s : SyncState κ χ ν) (seqs : List ℕ) (err : RangoError) :
    Except RangoError ℕ × SyncState κ χ ν :=
  match markAllFailed err.display s.queue seqs with
  | (.error err, queue) => (.error err, { s with queue })
  | (.ok (), queue) => (.ok 0, { s with queue })

variable [Oplog ω] [SyncServer ν]

/-- The push of a batch: one window of the oplog, as long as the batch, from the first listed
number on. -/
def pushBatch (nodeId : String) (oplog : ω) (s : SyncState κ χ ν) (seqs : List ℕ) :
    Except RangoError ℕ × SyncState κ χ ν :=
  match Oplog.readSince (seqs.headD 0) seqs.length oplog with
  | .error err => (.error err, s)
  | .ok entries =>
    match CheckpointStore.get s.checkpoint with
    | .error err => (.error err, s)
    | .ok checkpoint =>
      match SyncClient.push nodeId (entries.map OplogEntry.mutation) checkpoint s.server with
      | (.ok resp, server) => pushAnswered { s with server } resp
      | (.error err, server) => pushFailed { s with server } seqs err

/-- The first part of `run_once`. -/
def pushPhase (config : SyncConfig) (nodeId : String) (oplog : ω) (s : SyncState κ χ ν) :
    Except RangoError ℕ × SyncState κ χ ν :=
  match SyncQueue.nextBatch config.batchSize s.queue with
  | (.error err, queue) => (.error err, { s with queue })
  | (.ok batch, queue) =>
    if batch = [] then (.ok 0, { s with queue })
    else pushBatch nodeId oplog { s with queue } (batch.map SyncQueueEntry.seq)

/-- The second part of `run_once`. A pull that fails is only logged. -/
def pullPhase (nodeId : String) (s : SyncState κ χ ν) :
    Except RangoError ℕ × SyncState κ χ ν :=
  match CheckpointStore.get s.checkpoint with
  | .error err => (.error err, s)
  | .ok checkpoint =>
    match SyncClient.pull nodeId checkpoint s.server with
    | (.error _, server) => (.ok 0, { s with server })
    | (.ok resp, server) =>
      match setCheckpoint { s with server } resp.newCheckpoint with
      | (.error err, s) => (.error err, s)
      | (.ok (), s) => (.ok resp.mutations.length, s)

/-- `SyncScheduler::run_once`. -/
def runOnce (config : SyncConfig) (nodeId : String) (oplog : ω) (s : SyncState κ χ ν) :
    Except RangoError SyncResult × SyncState κ χ ν :=
  match pushPhase config nodeId oplog s with
  | (.error err, s) => (.error err, s)
  | (.ok pushed, s) =>
    match pullPhase nodeId s with
    | (.error err, s) => (.error err, s)
    | (.ok pulled, s) => (.ok ⟨pushed, pulled⟩, s)

end
end SyncScheduler
end Rango
