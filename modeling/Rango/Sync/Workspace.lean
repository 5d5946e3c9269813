import Rango.Oplog.Log
import Rango.Sync.Scheduler

/-!
# The sync command

`run_sync` of the command line on a workspace: it opens the oplog, the queue and the stored
checkpoint, puts the oplog's entries into the queue from the checkpoint on, and runs one sync
cycle. `Workspace.Event` puts it together with local writes. Its loop has no bound, so the
functions take fuel; that there is enough is `enqueueLoop_total`.
-/

namespace Rango

/-- The files of a workspace that sync works on. -/
structure Workspace (ω : Type) where
  oplog : ω
  queue : FileSyncQueue
  checkpoint : FileCheckpointStore

/-- `n + 1` at `u64`. -/
def addOne [Arithmetic] (n : ℕ) : Except Fault ℕ :=
  if n + 1 < 2 ^ 64 then .ok (n + 1)
  else if Arithmetic.overflowChecks then .error .panic
  else .ok ((n + 1) % 2 ^ 64)

/-- The entries that one read of the loop takes at most. -/
def enqueuePage : ℕ := 100

section
variable [Arithmetic] {κ : Type} [SyncQueue κ]

/-- The inner loop of `run_sync`: the number to go on with, once the entries are queued. -/
def enqueueEntries (seq : ℕ) (queue : κ) : List OplogEntry → Except Fault ℕ × κ
  | [] => (.ok seq, queue)
  | entry :: rest =>
    match SyncQueue.enqueue entry.seq queue with
    | (.error err, queue) => (.error (.error err), queue)
    | (.ok (), queue) =>
      match addOne entry.seq with
      | .error fault => (.error fault, queue)
      | .ok seq => enqueueEntries seq queue rest

/-- The outer loop of `run_sync`. -/
def enqueueLoop {ω : Type} [Oplog ω] (oplog : ω) :
    ℕ → ℕ → κ → Option (Except Fault Unit × κ)
  | 0, _, _ => none
  | fuel + 1, seq, queue =>
    match Oplog.readSince seq enqueuePage oplog with
    | .error err => some (.error (.error err), queue)
    | .ok [] => some (.ok (), queue)
    | .ok (entry :: rest) =>
      match enqueueEntries seq queue (entry :: rest) with
      | (.error fault, queue) => some (.error fault, queue)
      | (.ok seq, queue) => enqueueLoop oplog fuel seq queue

end

namespace Workspace

section
variable {ω : Type} [DurableOplog ω] [QueueCodec] [JsonCodec]

/-- The workspace as a new process opens it. -/
def opened (ws : Workspace ω) : Except RangoError (Workspace ω) :=
  match DurableOplog.reopen ws.oplog with
  | .error err => .error err
  | .ok oplog => .ok { oplog, queue := ws.queue.reopen, checkpoint := ws.checkpoint }

variable [Arithmetic]

/-- The first part of `run_sync` on an opened workspace. -/
def enqueueWrites (fuel : ℕ) (ws : Workspace ω) : Option (Except Fault Unit × Workspace ω) :=
  match CheckpointStore.get ws.checkpoint with
  | .error err => some (.error (.error err), ws)
  | .ok checkpoint =>
    match addOne checkpoint with
    | .error fault => some (.error fault, ws)
    | .ok seq =>
      (enqueueLoop ws.oplog fuel seq ws.queue).map fun (result, queue) =>
        (result, { ws with queue })

variable {ν : Type} [SyncServer ν]

/-- The second part of `run_sync`: one cycle. -/
def syncCycle (nodeId : String) (ws : Workspace ω) (server : ν) :
    Except Fault SyncResult × Workspace ω × ν :=
  match SyncScheduler.runOnce .default nodeId ws.oplog
      { queue := ws.queue, checkpoint := ws.checkpoint, server } with
  | (result, s) =>
    (result.mapError .error, { ws with queue := s.queue, checkpoint := s.checkpoint }, s.server)

/-- `run_sync`. -/
def runSync (fuel : ℕ) (nodeId : String) (ws : Workspace ω) (server : ν) :
    Option (Except Fault SyncResult × Workspace ω × ν) :=
  match ws.opened with
  | .error err => some (.error (.error err), ws, server)
  | .ok ws =>
    match ws.enqueueWrites fuel with
    | none => none
    | some (.error fault, ws) => some (.error fault, ws, server)
    | some (.ok (), ws) => some (ws.syncCycle nodeId server)

end

/-! ## Runs -/

/-- What happens to a workspace: a local write appends to the oplog, the oplog is opened by
another process, or the sync command is run. -/
inductive Event where
  | write (entry : OplogEntry)
  | openLog
  | sync (nodeId : String)

variable {ω ν : Type} [DurableOplog ω] [QueueCodec] [JsonCodec] [Arithmetic] [SyncServer ν]

/-- The workspace and the server after an event, whatever it returned. A command that does not
end leaves both as they were. -/
def step (fuel : ℕ) (ws : Workspace ω × ν) : Event → Workspace ω × ν
  | .write entry => ({ ws.1 with oplog := (Oplog.append entry ws.1.oplog).2 }, ws.2)
  | .openLog =>
    match DurableOplog.reopen ws.1.oplog with
    | .error _ => ws
    | .ok oplog => ({ ws.1 with oplog }, ws.2)
  | .sync nodeId =>
    match runSync fuel nodeId ws.1 ws.2 with
    | none => ws
    | some (_, ws) => ws

/-- What a run of events leaves. -/
def run (fuel : ℕ) (ws : Workspace ω × ν) (events : List Event) : Workspace ω × ν :=
  events.foldl (step fuel) ws

end Workspace
end Rango
