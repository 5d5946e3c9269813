import Rango.Sync.CycleTheorems
import Rango.Sync.DispatchTheorems

/-!
# Progress of the queue

Every cycle takes a whole batch of waiting entries, or all that wait, and nothing makes an entry
wait again, whatever fails in the cycle and whatever the server answers. So the entries of a queue
are taken one batch after another, each of them once (`SyncScheduler.queue_drains`).
-/

namespace Rango

/-! ## Entries that wait -/

namespace QueueStateMem

variable {mem : QueueStateMem} {s : ℕ}

/-- The numbers of the entries that are `Pending`, in the order of the map. -/
def pendingSeqs (mem : QueueStateMem) : List ℕ :=
  (mem.entries.filter fun e => e.state = .pending).map SyncQueueEntry.seq

lemma pendingSeqs_sublist (mem : QueueStateMem) : mem.pendingSeqs.Sublist mem.seqs :=
  List.filter_sublist.map _

lemma pendingSeqs_nodup (mem : QueueStateMem) : mem.pendingSeqs.Nodup :=
  mem.unique.sublist mem.pendingSeqs_sublist

lemma mem_pendingSeqs_iff : s ∈ mem.pendingSeqs ↔ mem.stateOf s = some .pending := by
  rw [stateOf, Option.map_eq_some_iff, pendingSeqs, List.mem_map]
  constructor
  · rintro ⟨e, he, hseq⟩
    obtain ⟨hmem, hstate⟩ := List.mem_filter.mp he
    exact ⟨e, get_eq_some_iff.mpr ⟨hmem, hseq⟩, of_decide_eq_true hstate⟩
  · rintro ⟨e, hget, hstate⟩
    obtain ⟨hmem, hseq⟩ := get_eq_some_iff.mp hget
    exact ⟨e, List.mem_filter.mpr ⟨hmem, decide_eq_true hstate⟩, hseq⟩

/-- An entry waits, or it does not. -/
lemma settled_iff : mem.Settled s ↔ s ∈ mem.seqs ∧ s ∉ mem.pendingSeqs := by
  rw [mem_pendingSeqs_iff]
  constructor
  · intro h
    obtain ⟨state, hne, hstate⟩ := id h
    refine ⟨h.mem_seqs, fun hpending => hne ?_⟩
    exact Option.some.inj (hstate.symm.trans hpending)
  · rintro ⟨hs, hpending⟩
    obtain ⟨e, he⟩ := Option.isSome_iff_exists.mp (mem_seqs_iff.mp hs)
    have hstate : mem.stateOf s = some e.state := by rw [stateOf, he, Option.map_some]
    exact ⟨e.state, fun h => hpending (by rw [hstate, h]), hstate⟩

end QueueStateMem

namespace FileSyncQueue

lemma batchSeqs_eq (limit : ℕ) (q : FileSyncQueue) :
    q.batchSeqs limit = q.mem.pendingSeqs.take limit := by
  rw [batchSeqs, pendingBatch, List.map_take]
  rfl

/-- From `q` to `q'`, a batch was taken: an entry of it does not wait any more, and any other is as
it was or acknowledged. -/
structure Advances (limit : ℕ) (q q' : FileSyncQueue) : Prop where
  seqs : q'.mem.seqs = q.mem.seqs
  taken : ∀ s ∈ q.batchSeqs limit, q'.mem.Settled s
  others : ∀ s ∉ q.batchSeqs limit,
    q'.mem.stateOf s = some .acked ∨ q'.mem.stateOf s = q.mem.stateOf s

namespace Advances

variable {limit : ℕ} {q q' : FileSyncQueue} (h : Advances limit q q')
include h

lemma settled {s : ℕ} (hs : q.mem.Settled s) : q'.mem.Settled s := by
  by_cases hbatch : s ∈ q.batchSeqs limit
  · exact h.taken s hbatch
  · obtain ⟨state, hne, hstate⟩ := hs
    rcases h.others s hbatch with hacked | hsame
    · exact ⟨.acked, by decide, hacked⟩
    · exact ⟨state, hne, hsame.trans hstate⟩

lemma acked {s : ℕ} (hs : q.mem.stateOf s = some .acked) : q'.mem.stateOf s = some .acked := by
  have hbatch : s ∉ q.batchSeqs limit := by
    intro hbatch
    rw [stateOf_of_mem_batchSeqs hbatch] at hs
    cases hs
  exact (h.others s hbatch).elim id fun hsame => hsame.trans hs

/-- What waits after a cycle waited before it, and its batch did not have it. -/
lemma pendingSeqs_subset : q'.mem.pendingSeqs ⊆ q.mem.pendingSeqs.drop limit := by
  intro s hs
  have hunsettled : ¬ q'.mem.Settled s := fun hsettled =>
    (QueueStateMem.settled_iff.mp hsettled).2 hs
  have hseq : s ∈ q.mem.seqs := h.seqs ▸ q'.mem.pendingSeqs_sublist.subset hs
  have hpending : s ∈ q.mem.pendingSeqs := by
    by_contra hnot
    exact hunsettled (h.settled (QueueStateMem.settled_iff.mpr ⟨hseq, hnot⟩))
  rw [← List.take_append_drop limit q.mem.pendingSeqs, List.mem_append, ← batchSeqs_eq] at hpending
  exact hpending.resolve_left fun hbatch => hunsettled (h.taken s hbatch)

lemma length_le : q'.mem.pendingSeqs.length ≤ q.mem.pendingSeqs.length - limit := by
  have hlength :=
    (List.subperm_of_subset q'.mem.pendingSeqs_nodup h.pendingSeqs_subset).length_le
  rwa [List.length_drop] at hlength

/-- What waited goes on to wait, was taken, or is acknowledged. -/
lemma waiting {s : ℕ} (hs : s ∈ q.mem.pendingSeqs) :
    s ∈ q'.mem.pendingSeqs ∨ s ∈ q.batchSeqs limit ∨ q'.mem.stateOf s = some .acked := by
  by_cases hbatch : s ∈ q.batchSeqs limit
  · exact Or.inr (Or.inl hbatch)
  · rcases h.others s hbatch with hacked | hsame
    · exact Or.inr (Or.inr hacked)
    · refine Or.inl (QueueStateMem.mem_pendingSeqs_iff.mpr ?_)
      exact hsame.trans (QueueStateMem.mem_pendingSeqs_iff.mp hs)

end Advances

/-! ## The calls of a cycle -/

variable [QueueCodec]

/-- `mark_failed` unsettles nothing and leaves the other entries. -/
lemma markFailed_stateOf (seq : ℕ) (error : String) (q : FileSyncQueue) (s : ℕ) :
    (q.markFailed seq error).2.mem.stateOf s =
      if s = seq ∧ s ∈ q.mem.seqs then some .failed else q.mem.stateOf s := by
  rw [markFailed, writeAll_mem]
  exact (QueueStateMem.sets_setFailed seq error).stateOf q.mem s

end FileSyncQueue

namespace SyncScheduler

variable {ω χ ν : Type} [QueueCodec]

/-- The loop over a batch whose push failed. -/
lemma markAllFailed_stateOf (error : String) (q : FileSyncQueue) (seqs : List ℕ) (s : ℕ) :
    (s ∉ seqs → (markAllFailed error q seqs).2.mem.stateOf s = q.mem.stateOf s) ∧
      (q.mem.Settled s → (markAllFailed error q seqs).2.mem.Settled s) := by
  induction seqs generalizing q with
  | nil => exact ⟨fun _ => rfl, id⟩
  | cons seq rest ih =>
    have hfirst := FileSyncQueue.markFailed_stateOf seq error q s
    have hother : s ∉ seq :: rest →
        (q.markFailed seq error).2.mem.stateOf s = q.mem.stateOf s := by
      intro hs
      rw [hfirst, if_neg]
      rintro ⟨rfl, -⟩
      exact hs List.mem_cons_self
    have hsettled : q.mem.Settled s → (q.markFailed seq error).2.mem.Settled s := by
      intro hs
      obtain ⟨state, hne, hstate⟩ := id hs
      by_cases hseq : s = seq
      · exact ⟨.failed, by decide, by rw [hfirst, if_pos ⟨hseq, hs.mem_seqs⟩]⟩
      · exact ⟨state, hne, by rw [hfirst, if_neg fun h => hseq h.1, hstate]⟩
    unfold markAllFailed
    split
    · next heq =>
      rw [show q.markFailed seq error = _ from heq] at hother hsettled
      exact ⟨hother, hsettled⟩
    · next q' heq =>
      rw [show q.markFailed seq error = _ from heq] at hother hsettled
      refine ⟨fun hs => ?_, fun hs => (ih q').2 (hsettled hs)⟩
      exact ((ih q').1 fun h => hs (List.mem_cons_of_mem _ h)).trans (hother hs)

variable [Oplog ω] [CheckpointStore χ] [SyncServer ν]

omit [CheckpointStore χ] [SyncServer ν] in
/-- The queue once the batch was taken, whether it could be written or not. -/
lemma takenQueue_advances (config : SyncConfig) (s : SyncState FileSyncQueue χ ν) :
    FileSyncQueue.Advances config.batchSize s.queue (takenQueue config s) := by
  obtain ⟨hseqs, hstate⟩ := FileSyncQueue.nextBatch_mem config.batchSize s.queue
  refine ⟨hseqs, fun seq hseq => ⟨.inflight, by decide, ?_⟩, fun seq hseq => Or.inr ?_⟩
  · exact (hstate seq).trans (if_pos hseq)
  · exact (hstate seq).trans (if_neg hseq)

/-- **One cycle.** It takes a batch, whatever fails in it and whatever is answered. -/
theorem runOnce_advances (config : SyncConfig) (nodeId : String) (log : ω)
    (s : SyncState FileSyncQueue χ ν) :
    FileSyncQueue.Advances config.batchSize s.queue (runOnce config nodeId log s).2.queue := by
  have htaken := takenQueue_advances config s
  rw [runOnce_queue]
  rcases pushPhase_cases config nodeId log s with h | ⟨seqs, window, checkpoint, hsends, server, h⟩
  · rw [h]
    exact htaken
  · obtain ⟨batch, hbatch, rfl⟩ := hsends.batch
    have hseqs : batch.map SyncQueueEntry.seq = s.queue.batchSeqs config.batchSize :=
      FileSyncQueue.nextBatch_seqs hbatch
    rcases h with ⟨resp, -, h⟩ | ⟨err, -, h⟩
    · rw [h, (pushAnswered_frame _ _).1]
      obtain ⟨hkeep, hstate⟩ :=
        FileSyncQueue.markAcked_mem resp.acceptedSeqs (takenQueue config s)
      -- a number that is acknowledged has an entry, in the batch or not
      have hcases : ∀ seq,
          ((takenQueue config s).markAcked resp.acceptedSeqs).2.mem.stateOf seq = some .acked ∨
            ((takenQueue config s).markAcked resp.acceptedSeqs).2.mem.stateOf seq =
              (takenQueue config s).mem.stateOf seq := by
        intro seq
        rw [hstate]
        split_ifs
        · exact Or.inl rfl
        · exact Or.inr rfl
      refine ⟨hkeep.trans htaken.seqs, fun seq hseq => ?_, fun seq hseq => ?_⟩
      · rcases hcases seq with hacked | hsame
        · exact ⟨.acked, by decide, hacked⟩
        · obtain ⟨state, hne, hold⟩ := htaken.taken seq hseq
          exact ⟨state, hne, hsame.trans hold⟩
      · rcases hcases seq with hacked | hsame
        · exact Or.inl hacked
        · exact (htaken.others seq hseq).imp hsame.trans hsame.trans
    · rw [h, (pushFailed_frame _ _ _).1, hseqs]
      refine ⟨(markAllFailed_seqs _ _ _).trans htaken.seqs, fun seq hseq => ?_, fun seq hseq => ?_⟩
      · exact (markAllFailed_stateOf _ _ _ seq).2 (htaken.taken seq hseq)
      · have hsame := (markAllFailed_stateOf err.display (takenQueue config s)
          (s.queue.batchSeqs config.batchSize) seq).1 hseq
        exact (htaken.others seq hseq).imp hsame.trans hsame.trans

/-! ## Cycles -/

/-- One more cycle, of a client that is called by a name and has an oplog by then. -/
def cycle (config : SyncConfig) (s : SyncState FileSyncQueue χ ν) (c : String × ω) :
    SyncState FileSyncQueue χ ν :=
  (runOnce config c.1 c.2 s).2

/-- The numbers that cycles one after another take from the queue, batch by batch. -/
def takenBatches (config : SyncConfig) :
    SyncState FileSyncQueue χ ν → List (String × ω) → List (List ℕ)
  | _, [] => []
  | s, c :: rest =>
    s.queue.batchSeqs config.batchSize :: takenBatches config (cycle config s c) rest

/-- What the cycles of a run leave waiting, and what they took. -/
structure Drains (config : SyncConfig) (s : SyncState FileSyncQueue χ ν)
    (cycles : List (String × ω)) : Prop where
  seqs : (cycles.foldl (cycle config) s).queue.mem.seqs = s.queue.mem.seqs
  subset : (cycles.foldl (cycle config) s).queue.mem.pendingSeqs ⊆ s.queue.mem.pendingSeqs
  length_le : (cycles.foldl (cycle config) s).queue.mem.pendingSeqs.length ≤
    s.queue.mem.pendingSeqs.length - cycles.length * config.batchSize
  once : (takenBatches config s cycles).flatten.Nodup
  taken : ∀ seq ∈ (takenBatches config s cycles).flatten, seq ∈ s.queue.mem.pendingSeqs ∧
    seq ∉ (cycles.foldl (cycle config) s).queue.mem.pendingSeqs
  waiting : ∀ seq ∈ s.queue.mem.pendingSeqs,
    seq ∈ (cycles.foldl (cycle config) s).queue.mem.pendingSeqs ∨
      seq ∈ (takenBatches config s cycles).flatten ∨
      (cycles.foldl (cycle config) s).queue.mem.stateOf seq = some .acked

lemma foldl_cycle_acked (config : SyncConfig) {s : SyncState FileSyncQueue χ ν}
    (cycles : List (String × ω)) {seq : ℕ} (h : s.queue.mem.stateOf seq = some .acked) :
    (cycles.foldl (cycle config) s).queue.mem.stateOf seq = some .acked :=
  Runs.invariant (fun s c hs => (runOnce_advances config c.1 c.2 s).acked hs) cycles h

/-- **Progress.** Through any cycles of a client, under any names, with whatever oplogs, stored
checkpoints and answers and whatever fails in them: every cycle takes another batch, up to the
batch size, of what waits; no number is taken twice; and a number that waited still waits, was
taken, or is acknowledged. After as many cycles as there are batches nothing waits. -/
theorem queue_drains (config : SyncConfig) (s : SyncState FileSyncQueue χ ν)
    (cycles : List (String × ω)) : Drains config s cycles := by
  induction cycles generalizing s with
  | nil =>
    exact ⟨rfl, fun _ hseq => hseq, by simp, List.nodup_nil, (by simp [takenBatches]),
      fun _ hseq => Or.inl hseq⟩
  | cons c rest ih =>
    have hfirst : FileSyncQueue.Advances config.batchSize s.queue (cycle config s c).queue :=
      runOnce_advances config c.1 c.2 s
    have hrest := ih (cycle config s c)
    have hbatch : s.queue.batchSeqs config.batchSize ⊆ s.queue.mem.pendingSeqs := by
      rw [FileSyncQueue.batchSeqs_eq]
      exact List.take_subset _ _
    have hpending : (cycle config s c).queue.mem.pendingSeqs ⊆ s.queue.mem.pendingSeqs :=
      fun seq hseq => List.drop_subset _ _ (hfirst.pendingSeqs_subset hseq)
    -- what the first batch took does not wait when the other cycles start
    have hgone : ∀ seq ∈ s.queue.batchSeqs config.batchSize,
        seq ∉ (cycle config s c).queue.mem.pendingSeqs := fun seq hseq =>
      (QueueStateMem.settled_iff.mp (hfirst.taken seq hseq)).2
    refine ⟨hrest.seqs.trans hfirst.seqs, fun seq hseq => hpending (hrest.subset hseq),
      ?_, ?_, ?_, ?_⟩
    · have hone := hfirst.length_le
      have hmany := hrest.length_le
      rw [List.foldl_cons, List.length_cons, Nat.succ_mul]
      omega
    · rw [takenBatches, List.flatten_cons, List.nodup_append]
      refine ⟨FileSyncQueue.batchSeqs_nodup _ _, hrest.once, fun seq hseq seq' hseq' heq => ?_⟩
      exact hgone seq hseq (heq ▸ (hrest.taken seq' hseq').1)
    · intro seq hseq
      rw [takenBatches, List.flatten_cons, List.mem_append] at hseq
      rcases hseq with hseq | hseq
      · exact ⟨hbatch hseq, fun h => hgone seq hseq (hrest.subset h)⟩
      · exact ⟨hpending (hrest.taken seq hseq).1, (hrest.taken seq hseq).2⟩
    · intro seq hseq
      rw [takenBatches, List.flatten_cons, List.mem_append]
      rcases hfirst.waiting hseq with hwaits | htaken | hacked
      · exact (hrest.waiting seq hwaits).imp id (Or.imp Or.inr id)
      · exact Or.inr (Or.inl (Or.inl htaken))
      · exact Or.inr (Or.inr (foldl_cycle_acked config rest hacked))

end SyncScheduler
end Rango
