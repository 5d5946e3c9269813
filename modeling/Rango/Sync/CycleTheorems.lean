import Rango.Sync.QueueTheorems
import Rango.Sync.Scheduler

/-!
# A sync cycle

What `run_once` sends and what it leaves: the cases of its first part, the parts of the state
that each part leaves alone, and the requests that an observed server was sent.
-/

namespace Rango

namespace SyncScheduler

/-! ## What a cycle does -/

section
variable {ω κ χ ν : Type} [Oplog ω] [SyncQueue κ] [CheckpointStore χ] [SyncServer ν]
  {config : SyncConfig} {nodeId : String} {log : ω}

/-- A push that a cycle sends: the batch, the window that it reads for it, and the checkpoint
it reports. -/
structure Sends (config : SyncConfig) (log : ω) (s : SyncState κ χ ν) (seqs : List ℕ)
    (window : List OplogEntry) (checkpoint : ℕ) : Prop where
  batch : ∃ batch, (SyncQueue.nextBatch config.batchSize s.queue).1 = .ok batch ∧
    batch.map SyncQueueEntry.seq = seqs
  nonempty : seqs ≠ []
  window : Oplog.readSince (seqs.headD 0) seqs.length log = .ok window
  checkpoint : CheckpointStore.get s.checkpoint = .ok checkpoint

/-- The queue when the batch was taken. -/
def takenQueue (config : SyncConfig) (s : SyncState κ χ ν) : κ :=
  (SyncQueue.nextBatch config.batchSize s.queue).2

/-- A cycle sends no push, or one, whose outcome decides what it leaves. -/
theorem pushPhase_cases (config : SyncConfig) (nodeId : String) (log : ω)
    (s : SyncState κ χ ν) :
    (pushPhase config nodeId log s).2 = { s with queue := takenQueue config s } ∨
      ∃ seqs window checkpoint, Sends config log s seqs window checkpoint ∧
        ∃ server, (∃ resp, SyncClient.push nodeId (window.map OplogEntry.mutation) checkpoint
            s.server = (.ok resp, server) ∧ pushPhase config nodeId log s =
              pushAnswered { s with queue := takenQueue config s, server } resp) ∨
          ∃ err, SyncClient.push nodeId (window.map OplogEntry.mutation) checkpoint s.server =
            (.error err, server) ∧ pushPhase config nodeId log s =
              pushFailed { s with queue := takenQueue config s, server } seqs err := by
  unfold pushPhase takenQueue
  cases hbatch : SyncQueue.nextBatch config.batchSize s.queue with
  | mk result queue =>
    cases result with
    | error err => exact Or.inl rfl
    | ok batch =>
      dsimp only
      split_ifs with hnil
      · exact Or.inl rfl
      · unfold pushBatch
        cases hread : Oplog.readSince ((batch.map SyncQueueEntry.seq).headD 0)
            (batch.map SyncQueueEntry.seq).length log with
        | error err => exact Or.inl rfl
        | ok window =>
          dsimp only
          cases hget : CheckpointStore.get s.checkpoint with
          | error err => exact Or.inl rfl
          | ok checkpoint =>
            have hsends : Sends config log s (batch.map SyncQueueEntry.seq) window checkpoint :=
              { batch := ⟨batch, by rw [hbatch], rfl⟩
                nonempty := fun h => hnil (List.map_eq_nil_iff.mp h)
                window := hread
                checkpoint := hget }
            refine Or.inr ⟨_, window, checkpoint, hsends, ?_⟩
            dsimp only
            cases hpush : SyncClient.push nodeId (window.map OplogEntry.mutation) checkpoint
                s.server with
            | mk outcome server =>
              cases outcome with
              | ok resp => exact ⟨server, Or.inl ⟨resp, rfl, rfl⟩⟩
              | error err => exact ⟨server, Or.inr ⟨err, rfl, rfl⟩⟩

/-- The first part of a cycle whose push is answered. -/
lemma Sends.pushPhase_answered {s : SyncState κ χ ν} {seqs : List ℕ} {window : List OplogEntry}
    {checkpoint : ℕ} {resp : PushResponse} {server : ν}
    (h : Sends config log s seqs window checkpoint)
    (hpush : SyncClient.push nodeId (window.map OplogEntry.mutation) checkpoint s.server =
      (.ok resp, server)) :
    pushPhase config nodeId log s =
      pushAnswered { s with queue := takenQueue config s, server } resp := by
  obtain ⟨batch, hbatch, rfl⟩ := h.batch
  have hnil : batch ≠ [] := fun hnil => h.nonempty (by rw [hnil, List.map_nil])
  rw [pushPhase, Prod.fst_eq_iff.mp hbatch]
  dsimp only
  rw [if_neg hnil, pushBatch, h.window]
  dsimp only
  rw [h.checkpoint]
  dsimp only
  rw [hpush]
  rfl

omit [Oplog ω] [SyncServer ν] in
/-- What an answered push leaves: the accepted numbers are marked, the server is as it was. -/
lemma pushAnswered_frame (s : SyncState κ χ ν) (resp : PushResponse) :
    (pushAnswered s resp).2.queue = (SyncQueue.markAcked resp.acceptedSeqs s.queue).2 ∧
      (pushAnswered s resp).2.server = s.server := by
  unfold pushAnswered setCheckpoint
  cases SyncQueue.markAcked resp.acceptedSeqs s.queue with
  | mk marked queue =>
    cases marked with
    | error err => exact ⟨rfl, rfl⟩
    | ok =>
      dsimp only
      cases CheckpointStore.set resp.newCheckpoint s.checkpoint with
      | mk written store => cases written <;> exact ⟨rfl, rfl⟩

omit [Oplog ω] [CheckpointStore χ] [SyncServer ν] in
/-- A failed push leaves the server and the checkpoint as they are. -/
lemma pushFailed_frame (s : SyncState κ χ ν) (seqs : List ℕ) (err : RangoError) :
    (pushFailed s seqs err).2.queue = (markAllFailed err.display s.queue seqs).2 ∧
      (pushFailed s seqs err).2.checkpoint = s.checkpoint ∧
      (pushFailed s seqs err).2.server = s.server := by
  unfold pushFailed
  cases markAllFailed err.display s.queue seqs with
  | mk marked queue => cases marked <;> exact ⟨rfl, rfl, rfl⟩

omit [Oplog ω] [SyncQueue κ] in
/-- A pull leaves the queue, and asks the server at most once. -/
lemma pullPhase_frame (nodeId : String) (s : SyncState κ χ ν) :
    (pullPhase nodeId s).2.queue = s.queue ∧
      ((pullPhase nodeId s).2.server = s.server ∨
        ∃ checkpoint, (pullPhase nodeId s).2.server =
          (SyncClient.pull nodeId checkpoint s.server).2) := by
  unfold pullPhase setCheckpoint
  cases CheckpointStore.get s.checkpoint with
  | error err => exact ⟨rfl, Or.inl rfl⟩
  | ok checkpoint =>
    refine ⟨?_, Or.inr ⟨checkpoint, ?_⟩⟩
    all_goals
      dsimp only
      cases SyncClient.pull nodeId checkpoint s.server with
      | mk outcome server =>
        cases outcome with
        | error err => rfl
        | ok resp =>
          dsimp only
          cases CheckpointStore.set resp.newCheckpoint s.checkpoint with
          | mk written store => cases written <;> rfl

/-- The cycle leaves what its second part leaves, where that is reached. -/
lemma runOnce_state (config : SyncConfig) (nodeId : String) (log : ω) (s : SyncState κ χ ν) :
    (runOnce config nodeId log s).2 = (pushPhase config nodeId log s).2 ∨
      (runOnce config nodeId log s).2 =
        (pullPhase nodeId (pushPhase config nodeId log s).2).2 := by
  unfold runOnce
  cases pushPhase config nodeId log s with
  | mk outcome s₁ =>
    cases outcome with
    | error err => exact Or.inl rfl
    | ok pushed =>
      refine Or.inr ?_
      dsimp only
      cases pullPhase nodeId s₁ with
      | mk outcome s₂ => cases outcome <;> rfl

lemma runOnce_queue (config : SyncConfig) (nodeId : String) (log : ω) (s : SyncState κ χ ν) :
    (runOnce config nodeId log s).2.queue = (pushPhase config nodeId log s).2.queue := by
  rcases runOnce_state config nodeId log s with h | h
  · rw [h]
  · rw [h, (pullPhase_frame nodeId _).1]

end

/-! ## The request of a cycle -/

section
variable {ω κ χ ν : Type} [Oplog ω] [SyncQueue κ] [CheckpointStore χ] [SyncServer ν]
  {config : SyncConfig} {nodeId : String} {log : ω} {s : SyncState κ χ (Observed ν)}

/-- What a client sends is kept. -/
lemma push_pushes (mutations : List Mutation) (checkpoint : ℕ) (o : Observed ν) :
    (SyncClient.push nodeId mutations checkpoint o).2.pushes =
      o.pushes ++ [⟨nodeId, "default", "default", mutations, checkpoint⟩] := rfl

omit [SyncQueue κ] in
/-- A pull sends no push. -/
lemma pullPhase_pushes : (pullPhase nodeId s).2.server.pushes = s.server.pushes := by
  rcases (pullPhase_frame nodeId s).2 with h | ⟨checkpoint, h⟩
  · rw [h]
  · rw [h]
    rfl

/-- The pushes of one cycle: none, or the window that the cycle reads for its batch. -/
theorem runOnce_pushes (config : SyncConfig) (nodeId : String) (log : ω)
    (s : SyncState κ χ (Observed ν)) :
    (runOnce config nodeId log s).2.server.pushes = s.server.pushes ∨
      ∃ seqs window checkpoint, Sends config log s seqs window checkpoint ∧
        (runOnce config nodeId log s).2.server.pushes = s.server.pushes ++
          [⟨nodeId, "default", "default", window.map OplogEntry.mutation, checkpoint⟩] := by
  have hrun : (runOnce config nodeId log s).2.server.pushes =
      (pushPhase config nodeId log s).2.server.pushes := by
    rcases runOnce_state config nodeId log s with h | h
    · rw [h]
    · rw [h, pullPhase_pushes]
  rw [hrun]
  rcases pushPhase_cases config nodeId log s with h | ⟨seqs, window, checkpoint, hsends, server, h⟩
  · rw [h]
    exact Or.inl rfl
  · refine Or.inr ⟨seqs, window, checkpoint, hsends, ?_⟩
    have hpushes : (SyncClient.push nodeId (window.map OplogEntry.mutation) checkpoint
        s.server).2.pushes = _ := push_pushes _ _ _
    rcases h with ⟨resp, hpush, h⟩ | ⟨err, hpush, h⟩
    · rw [h, (pushAnswered_frame _ _).2, ← hpushes, hpush]
    · rw [h, (pushFailed_frame _ _ _).2.2, ← hpushes, hpush]

end

/-! ## A cycle over a file queue -/

section
variable {ω χ ν : Type} [Oplog ω] [QueueCodec] [CheckpointStore χ] [SyncServer ν]

lemma markAllFailed_seqs (error : String) (queue : FileSyncQueue) (seqs : List ℕ) :
    (markAllFailed error queue seqs).2.mem.seqs = queue.mem.seqs := by
  induction seqs generalizing queue with
  | nil => rfl
  | cons seq rest ih =>
    have hfirst := FileSyncQueue.markFailed_seqs seq error queue
    unfold markAllFailed
    split
    · next heq => rw [show queue.markFailed seq error = _ from heq] at hfirst; exact hfirst
    · next queue' heq =>
      rw [show queue.markFailed seq error = _ from heq] at hfirst
      exact (ih queue').trans hfirst

/-- A cycle changes the states of entries, and neither adds nor removes one. -/
theorem runOnce_seqs (config : SyncConfig) (nodeId : String) (log : ω)
    (s : SyncState FileSyncQueue χ ν) :
    (runOnce config nodeId log s).2.queue.mem.seqs = s.queue.mem.seqs := by
  have htaken : (takenQueue config s).mem.seqs = s.queue.mem.seqs :=
    (FileSyncQueue.nextBatch_mem config.batchSize s.queue).1
  rw [runOnce_queue]
  rcases pushPhase_cases config nodeId log s with h | ⟨seqs, window, checkpoint, -, server, h⟩
  · rw [h]
    exact htaken
  · rcases h with ⟨resp, -, h⟩ | ⟨err, -, h⟩
    · rw [h, (pushAnswered_frame _ _).1]
      exact (FileSyncQueue.markAcked_mem _ _).1.trans htaken
    · rw [h, (pushFailed_frame _ _ _).1]
      exact (markAllFailed_seqs _ _ _).trans htaken

end
end SyncScheduler
end Rango
