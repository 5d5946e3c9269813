import Rango.Lib.Paging
import Rango.Oplog.FileTheorems
import Rango.Sync.CycleTheorems

/-!
# What a cycle pushes

The batch is a set of numbers in the order of the queue's map, and the cycle reads one window
of the log for it. `pushed_batch_iff`: the two agree when the batch is a stretch of the log
and its first number is listed first.
-/

namespace Rango

open Paging (window selection strays missed Consecutive)

namespace SyncScheduler

variable {ω χ ν : Type} [LogOplog ω] [QueueCodec] [CheckpointStore χ] [SyncServer ν]
  {config : SyncConfig} {nodeId : String} {log : ω}
  {s : SyncState FileSyncQueue χ (Observed ν)} {batch : List SyncQueueEntry} {req : PushRequest}

/-- The window of the log that is read for a batch. -/
def batchWindow (log : ω) (seqs : List ℕ) : List OplogEntry :=
  window OplogEntry.seq (toEntries log) (seqs.headD 0) seqs

/-- The entries of the log that a batch names. -/
def batchEntries (log : ω) (seqs : List ℕ) : List OplogEntry :=
  selection OplogEntry.seq (toEntries log) seqs

/-- The mutations of a push that a cycle sends are those of the window of its batch. -/
lemma pushed_window (hbatch : (s.queue.nextBatch config.batchSize).1 = .ok batch)
    (hnew : s.server.pushes = []) (hreq : req ∈ (runOnce config nodeId log s).2.server.pushes) :
    req.mutations =
      (batchWindow log (batch.map SyncQueueEntry.seq)).map OplogEntry.mutation := by
  rcases runOnce_pushes config nodeId log s with h | ⟨seqs, read, checkpoint, hsends, h⟩
  · rw [h, hnew] at hreq
    cases hreq
  · rw [h, hnew, List.nil_append, List.mem_singleton] at hreq
    obtain ⟨batch', hbatch', hseqs⟩ := hsends.batch
    obtain rfl : batch = batch' := Except.ok.inj (hbatch.symm.trans hbatch')
    have hpos : 0 < seqs.length := List.length_pos_iff.mpr hsends.nonempty
    rw [hreq, hseqs, LogOplog.readSince_ok log _ _ read hpos hsends.window]
    rfl

/-- **The pushed batch.** A cycle pushes the mutations of the entries of its batch, each once,
exactly when these are consecutive in the log from the first listed one on, or when the
window's other entries carry the mutations of those that it misses. -/
theorem pushed_batch_iff (hqueue : ∀ seq ∈ s.queue.mem.seqs, ∃ e ∈ toEntries log, e.seq = seq)
    (hbatch : (s.queue.nextBatch config.batchSize).1 = .ok batch)
    (hnew : s.server.pushes = []) (hreq : req ∈ (runOnce config nodeId log s).2.server.pushes) :
    let seqs := batch.map SyncQueueEntry.seq
    req.mutations.Perm ((batchEntries log seqs).map OplogEntry.mutation) ↔
      Consecutive OplogEntry.seq (toEntries log) (seqs.headD 0) seqs ∨
        strays OplogEntry.seq (toEntries log) (seqs.headD 0) seqs ≠ [] ∧
          ((strays OplogEntry.seq (toEntries log) (seqs.headD 0) seqs).map
            OplogEntry.mutation).Perm
            ((missed OplogEntry.seq (toEntries log) (seqs.headD 0) seqs).map
              OplogEntry.mutation) := by
  intro seqs
  have hincreasing := LogOplog.increasing log
  have hseqs : seqs = s.queue.batchSeqs config.batchSize := FileSyncQueue.nextBatch_seqs hbatch
  have hnodup : seqs.Nodup := hseqs ▸ FileSyncQueue.batchSeqs_nodup _ _
  have hall : ∀ k ∈ seqs, k ∈ (toEntries log).map OplogEntry.seq := by
    intro k hk
    rw [hseqs] at hk
    exact List.mem_map.mpr (hqueue k ((FileSyncQueue.batchSeqs_sublist _ _).subset hk))
  rw [pushed_window hbatch hnew hreq]
  have hperm := Paging.window_perm_iff OplogEntry.mutation hincreasing (seqs.headD 0) seqs
  refine hperm.trans ?_
  rw [← Paging.window_eq_selection_iff hincreasing hnodup hall]
  constructor
  · intro h
    by_cases hstrays : strays OplogEntry.seq (toEntries log) (seqs.headD 0) seqs = []
    · rw [hstrays, List.map_nil] at h
      exact Or.inl ⟨hstrays, List.map_eq_nil_iff.mp (List.nil_perm.mp h)⟩
    · exact Or.inr ⟨hstrays, h⟩
  · rintro (⟨hstrays, hmissed⟩ | ⟨-, h⟩)
    · rw [hstrays, hmissed]
    · exact h

end SyncScheduler

/-! ## Two entries, listed the other way round -/

section

/-- Entries of a queue in a state. -/
def sampleQueued (state : QueueState) (seqs : List ℕ) : List SyncQueueEntry :=
  seqs.map fun seq => ⟨seq, state, 0, none⟩

/-- A codec that knows the entries `1` and `2` of a queue in every state. -/
@[reducible] def sampleQueueCodec : QueueCodec :=
  .ofTable (sampleQueued .pending [1, 2] ++ sampleQueued .inflight [1, 2] ++
    sampleQueued .acked [1, 2] ++ sampleQueued .failed [1, 2]) []

/-- A codec that knows the checkpoints up to `4`. -/
@[reducible] def sampleJsonCodec : JsonCodec := .ofTable [0, 1, 2, 3, 4]

attribute [local instance] sampleQueueCodec sampleJsonCodec

/-- A queue with pending entries in this order, whose writes will succeed. -/
def sampleQueue (seqs : List ℕ) (unique : seqs.Nodup) : FileSyncQueue where
  file := none
  mem :=
    { entries := sampleQueued .pending seqs
      unique := by simpa [sampleQueued, Function.comp_def] using unique }
  crypto := none
  turns _ := ⟨.inserted, fun _ => sampleNonce, none⟩

/-- A checkpoint that was not stored yet. -/
def sampleStore : FileCheckpointStore := ⟨none, none, fun _ => ⟨sampleNonce, none⟩⟩

/-- A log of two writes. -/
def sampleClientLog : MemLog :=
  (Oplog.append (sampleEntry 0 "w2") (Oplog.append (sampleEntry 0 "w1") MemLog.new).2).2

/-- A client before a cycle with a server that accepts two mutations and has none to pull. -/
def sampleClient (seqs : List ℕ) (unique : seqs.Nodup) :
    SyncState FileSyncQueue FileCheckpointStore (Observed Scripted) where
  queue := sampleQueue seqs unique
  checkpoint := sampleStore
  server := ⟨⟨.success ⟨[1, 2], 2, 0, 0, []⟩, .success ⟨[], 2, []⟩⟩, [], []⟩

/-- The cycle of such a client. -/
def sampleCycle (seqs : List ℕ) (unique : seqs.Nodup) :
    SyncState FileSyncQueue FileCheckpointStore (Observed Scripted) :=
  (SyncScheduler.runOnce .default "node" sampleClientLog (sampleClient seqs unique)).2

/-- The push of both writes. -/
def sampleBothPushed : PushRequest :=
  ⟨"node", "default", "default",
    [(sampleEntry 1 "w1").mutation, (sampleEntry 2 "w2").mutation], 0⟩

/-- A batch in the order of the log is pushed as it is. -/
theorem pushed_batch_iff_ordered :
    ∃ req ∈ (sampleCycle [1, 2] (by decide)).server.pushes,
      req.mutations.Perm ((SyncScheduler.batchEntries sampleClientLog [1, 2]).map
        OplogEntry.mutation) := by
  have hqueue : ∀ seq ∈ (sampleClient [1, 2] (by decide)).queue.mem.seqs,
      ∃ e ∈ toEntries sampleClientLog, e.seq = seq := by decide +kernel
  have hbatch : ((sampleClient [1, 2] (by decide)).queue.nextBatch
      SyncConfig.default.batchSize).1 = .ok (sampleQueued .inflight [1, 2]) := by decide +kernel
  have hreq : sampleBothPushed ∈ (sampleCycle [1, 2] (by decide)).server.pushes := by
    decide +kernel
  have hconsecutive : Consecutive OplogEntry.seq (toEntries sampleClientLog) 1 [1, 2] := by
    unfold Consecutive
    decide +kernel
  exact ⟨sampleBothPushed, hreq,
    (SyncScheduler.pushed_batch_iff hqueue hbatch rfl hreq).mpr (Or.inl hconsecutive)⟩

/-- When the map lists the second entry first, the first one is not pushed. -/
theorem pushed_batch_misses_first :
    (∀ seq ∈ (sampleClient [2, 1] (by decide)).queue.mem.seqs,
      ∃ e ∈ toEntries sampleClientLog, e.seq = seq) ∧
    ((sampleClient [2, 1] (by decide)).queue.nextBatch SyncConfig.default.batchSize).1 =
      .ok (sampleQueued .inflight [2, 1]) ∧
    ∃ req ∈ (sampleCycle [2, 1] (by decide)).server.pushes,
      req.mutations = [(sampleEntry 2 "w2").mutation] ∧
        ¬ req.mutations.Perm ((SyncScheduler.batchEntries sampleClientLog [2, 1]).map
          OplogEntry.mutation) := by
  decide +kernel

end
end Rango
