import Rango.Lib.Runs
import Rango.Sync.QueueFileTheorems

/-!
# What a queue hands out

Over a run of calls and reopens, `next_batch` hands out each number at most once: no call makes an
entry `Pending` again or removes it, and a reopen finds what was in memory.
-/

namespace Rango

/-- One call on a file queue. -/
inductive QueueStep where
  | enqueue (seq : ℕ)
  | nextBatch (limit : ℕ)
  | markInflight (seqs : List ℕ)
  | markAcked (seqs : List ℕ)
  | markFailed (seq : ℕ) (error : String)
  | reopen

/-- A file queue, and the batches that it handed out. -/
structure QueueRun where
  queue : FileSyncQueue
  batches : List (List SyncQueueEntry)

namespace QueueRun

/-- The numbers that were handed out, once for every batch that they were in. -/
def dispatched (r : QueueRun) : List ℕ := r.batches.flatten.map SyncQueueEntry.seq

variable [QueueCodec]

/-- The first handle on a path. -/
def start (file : Option Bytes) (crypto : Option CryptoEngine) (turns : ℕ → QueueTurn) : QueueRun :=
  ⟨.newWithCrypto file crypto turns, []⟩

/-- One call: whether it failed, and what it leaves. -/
def call (r : QueueRun) : QueueStep → Except RangoError Unit × QueueRun
  | .enqueue seq => ((r.queue.enqueue seq).1, { r with queue := (r.queue.enqueue seq).2 })
  | .nextBatch limit =>
    match r.queue.nextBatch limit with
    | (.error err, queue) => (.error err, { r with queue })
    | (.ok batch, queue) => (.ok (), ⟨queue, r.batches ++ [batch]⟩)
  | .markInflight seqs =>
    ((r.queue.markInflight seqs).1, { r with queue := (r.queue.markInflight seqs).2 })
  | .markAcked seqs => ((r.queue.markAcked seqs).1, { r with queue := (r.queue.markAcked seqs).2 })
  | .markFailed seq error =>
    ((r.queue.markFailed seq error).1, { r with queue := (r.queue.markFailed seq error).2 })
  | .reopen => (.ok (), { r with queue := r.queue.reopen })

/-- What one call leaves. -/
def step (r : QueueRun) (s : QueueStep) : QueueRun := (r.call s).2

/-- What a run of calls leaves. -/
def run (r : QueueRun) (steps : List QueueStep) : QueueRun := steps.foldl step r

/-- No call of the run fails. -/
def Succeeds (r : QueueRun) (steps : List QueueStep) : Prop :=
  Runs.All step (fun r s => (r.call s).1 = .ok ()) r steps

end QueueRun

/-! ## Entries that were handed out -/

namespace QueueStateMem

variable {mem : QueueStateMem} {s : ℕ}

/-- The number has an entry, which is not `Pending`. -/
def Settled (mem : QueueStateMem) (s : ℕ) : Prop := ∃ state ≠ .pending, mem.stateOf s = some state

lemma Settled.mem_seqs (h : mem.Settled s) : s ∈ mem.seqs := by
  obtain ⟨state, -, hstate⟩ := h
  obtain ⟨e, he, -⟩ := Option.map_eq_some_iff.mp hstate
  rw [mem_seqs_iff, he]
  rfl

lemma Settled.congr {mem' : QueueStateMem} (h : mem.Settled s)
    (hget : mem'.get s = mem.get s) : mem'.Settled s := by
  obtain ⟨state, hne, hstate⟩ := h
  exact ⟨state, hne, by rw [stateOf, hget, ← stateOf, hstate]⟩

/-- Setting states to one that is not `Pending` unsettles nothing. -/
lemma Settled.foldl_sets {α : Type} {f : QueueStateMem → α → QueueStateMem} {key : α → ℕ}
    {state : QueueState} (hstate : state ≠ .pending) {as : List α}
    (h : ∀ a ∈ as, Sets f key state a) (hs : mem.Settled s) : (as.foldl f mem).Settled s := by
  have hfold := (QueueStateMem.foldl_sets h mem).2 s
  by_cases hin : s ∈ as.map key ∧ s ∈ mem.seqs
  · exact ⟨state, hstate, by rw [hfold, if_pos hin]⟩
  · obtain ⟨old, hold, hs⟩ := hs
    exact ⟨old, hold, by rw [hfold, if_neg hin, hs]⟩

lemma sets_setFailed (seq : ℕ) (error : String) :
    Sets (fun mem seq => mem.modify (FileSyncQueue.setFailed seq error)) id .failed seq :=
  ⟨fun _ => modify_seqs _, fun _ s => stateOf_modify (fun _ => rfl) s⟩

end QueueStateMem

namespace FileSyncQueue

variable [QueueCodec] {q : FileSyncQueue}

/-! ## The calls -/

/-- A call leaves the file with what the map holds, and no settled entry `Pending` or gone. -/
structure Keeps (q q' : FileSyncQueue) : Prop where
  synced : q'.Synced
  crypto : q'.crypto = q.crypto
  settled : ∀ s, q.mem.Settled s → q'.mem.Settled s

/-- A call that changes the map and writes it. -/
lemma keeps_withMem {mem : QueueStateMem} (h : Readable q.crypto)
    (hok : (q.withMem mem).writeAll.1 = .ok ())
    (hsettled : ∀ s, q.mem.Settled s → mem.Settled s) : q.Keeps (q.withMem mem).writeAll.2 where
  synced := writeAll_synced h hok
  crypto := writeAll_crypto _
  settled s hs := by
    rw [writeAll_mem]
    exact hsettled s hs

lemma keeps_enqueue (h : Readable q.crypto) (hq : q.Synced) {seq : ℕ}
    (hok : (q.enqueue seq).1 = .ok ()) : q.Keeps (q.enqueue seq).2 := by
  unfold enqueue at hok ⊢
  split_ifs at hok ⊢ with hseq
  · exact ⟨hq, rfl, fun _ hs => hs⟩
  · refine keeps_withMem h hok fun s hs => hs.congr ?_
    -- a settled number is in the map already
    have hne : s ≠ seq := fun heq => hseq (heq ▸ hs.mem_seqs)
    rw [QueueStateMem.get_insertVacant, if_neg hne]

lemma keeps_markInflight (h : Readable q.crypto) {seqs : List ℕ}
    (hok : (q.markInflight seqs).1 = .ok ()) : q.Keeps (q.markInflight seqs).2 :=
  keeps_withMem h hok fun _ hs => hs.foldl_sets (by decide) fun seq _ =>
    QueueStateMem.sets_setState .inflight seq

lemma keeps_markAcked (h : Readable q.crypto) {seqs : List ℕ}
    (hok : (q.markAcked seqs).1 = .ok ()) : q.Keeps (q.markAcked seqs).2 :=
  keeps_withMem h hok fun _ hs => hs.foldl_sets (by decide) fun seq _ =>
    QueueStateMem.sets_setState .acked seq

lemma keeps_markFailed (h : Readable q.crypto) {seq : ℕ} {error : String}
    (hok : (q.markFailed seq error).1 = .ok ()) : q.Keeps (q.markFailed seq error).2 :=
  have hsets : ∀ s ∈ [seq], QueueStateMem.Sets
      (fun mem seq => mem.modify (setFailed seq error)) id .failed s :=
    fun s _ => QueueStateMem.sets_setFailed s error
  keeps_withMem h hok fun _ hs => hs.foldl_sets (by decide) hsets

lemma keeps_reopen (hq : q.Synced) : q.Keeps q.reopen :=
  ⟨newWithCrypto_synced _ _ _, rfl, fun s hs => hs.congr (hq.reopen_get s)⟩

/-- A batch is empty, or the map that it leaves is written. -/
lemma nextBatch_cases (limit : ℕ) (q : FileSyncQueue) :
    q.pendingBatch limit = [] ∧ (q.nextBatch limit).2 = q ∨
      q.pendingBatch limit ≠ [] ∧ ∃ mem, (q.nextBatch limit).2 = (q.withMem mem).writeAll.2 ∧
        ∀ batch, (q.nextBatch limit).1 = .ok batch → (q.withMem mem).writeAll.1 = .ok () := by
  by_cases hnil : q.pendingBatch limit = []
  · refine .inl ⟨hnil, ?_⟩
    rw [nextBatch, hnil]
    rfl
  · have htaken : ((q.pendingBatch limit).map fun e => { e with state := .inflight }) ≠ [] :=
      mt List.map_eq_nil_iff.mp hnil
    refine .inr ⟨hnil, ((q.pendingBatch limit).map fun e =>
      { e with state := .inflight }).foldl QueueStateMem.replace q.mem, ?_⟩
    simp only [nextBatch, if_neg htaken]
    split
    · next err q' hwrite => exact ⟨(congrArg Prod.snd hwrite).symm, by simp⟩
    · next q' hwrite => exact ⟨(congrArg Prod.snd hwrite).symm, fun _ _ => congrArg Prod.fst hwrite⟩

omit [QueueCodec] in
/-- What a batch takes was `Pending`. -/
lemma stateOf_of_mem_batchSeqs {limit s : ℕ} (hs : s ∈ q.batchSeqs limit) :
    q.mem.stateOf s = some .pending := by
  obtain ⟨e, he, rfl⟩ := List.mem_map.mp hs
  have hfilter := List.mem_filter.mp ((List.take_sublist _ _).subset he)
  rw [QueueStateMem.stateOf, QueueStateMem.get_eq_some_iff.mpr ⟨hfilter.1, rfl⟩]
  exact congrArg some (of_decide_eq_true hfilter.2)

/-- What a batch takes was not settled, and is settled from then on. -/
lemma keeps_nextBatch (h : Readable q.crypto) (hq : q.Synced) {limit : ℕ}
    {batch : List SyncQueueEntry} (hok : (q.nextBatch limit).1 = .ok batch) :
    q.Keeps (q.nextBatch limit).2 ∧ (∀ s ∈ q.batchSeqs limit, ¬ q.mem.Settled s) ∧
      ∀ s ∈ q.batchSeqs limit, (q.nextBatch limit).2.mem.Settled s := by
  obtain ⟨-, hstate⟩ := nextBatch_mem limit q
  have hpending : ∀ s ∈ q.batchSeqs limit, ¬ q.mem.Settled s := by
    rintro s hs ⟨state, hne, hsettled⟩
    rw [stateOf_of_mem_batchSeqs hs] at hsettled
    exact hne (Option.some.inj hsettled).symm
  have hinflight : ∀ s ∈ q.batchSeqs limit, (q.nextBatch limit).2.mem.Settled s := fun s hs =>
    ⟨.inflight, by decide, by rw [hstate, if_pos hs]⟩
  have hkept : ∀ s, q.mem.Settled s → (q.nextBatch limit).2.mem.Settled s := by
    intro s hs
    by_cases hin : s ∈ q.batchSeqs limit
    · exact hinflight s hin
    · obtain ⟨state, hne, hsettled⟩ := hs
      exact ⟨state, hne, by rw [hstate, if_neg hin, hsettled]⟩
  rcases nextBatch_cases limit q with ⟨-, heq⟩ | ⟨-, mem, heq, hwrite⟩
  · exact ⟨⟨by rw [heq]; exact hq, by rw [heq], hkept⟩, hpending, hinflight⟩
  · refine ⟨⟨?_, ?_, hkept⟩, hpending, hinflight⟩
    · rw [heq]
      exact writeAll_synced h (hwrite batch hok)
    · rw [heq]
      exact writeAll_crypto _

/-- A batch has as many entries as there are, up to the limit. -/
lemma nextBatch_length {limit : ℕ} {batch : List SyncQueueEntry}
    (hok : (q.nextBatch limit).1 = .ok batch) :
    batch.length = min limit (q.mem.entries.countP fun e => e.state = .pending) := by
  have hlength : (batch.map SyncQueueEntry.seq).length = (q.batchSeqs limit).length :=
    congrArg List.length (nextBatch_seqs hok)
  rw [List.length_map, batchSeqs, List.length_map, pendingBatch, List.length_take] at hlength
  rw [hlength, List.countP_eq_length_filter]

end FileSyncQueue

/-! ## Runs -/

namespace QueueRun

variable [QueueCodec]

/-- The file holds what the map does, and what was handed out is settled. -/
structure Inv (crypto : Option CryptoEngine) (r : QueueRun) : Prop where
  synced : r.queue.Synced
  crypto_eq : r.queue.crypto = crypto
  nodup : r.dispatched.Nodup
  settled : ∀ s ∈ r.dispatched, r.queue.mem.Settled s

lemma Inv.keeps {crypto : Option CryptoEngine} {r : QueueRun} (h : r.Inv crypto)
    {q' : FileSyncQueue} (hkeeps : r.queue.Keeps q') : Inv crypto { r with queue := q' } where
  synced := hkeeps.synced
  crypto_eq := hkeeps.crypto.trans h.crypto_eq
  nodup := h.nodup
  settled s hs := hkeeps.settled s (h.settled s hs)

/-- One call that succeeds. -/
theorem step_inv {crypto : Option CryptoEngine} (hread : FileSyncQueue.Readable crypto)
    {r : QueueRun} (h : r.Inv crypto) {s : QueueStep} (hok : (r.call s).1 = .ok ()) :
    (r.step s).Inv crypto := by
  have hread' : FileSyncQueue.Readable r.queue.crypto := h.crypto_eq ▸ hread
  cases s with
  | enqueue seq => exact h.keeps (FileSyncQueue.keeps_enqueue hread' h.synced hok)
  | markInflight seqs => exact h.keeps (FileSyncQueue.keeps_markInflight hread' hok)
  | markAcked seqs => exact h.keeps (FileSyncQueue.keeps_markAcked hread' hok)
  | markFailed seq error => exact h.keeps (FileSyncQueue.keeps_markFailed hread' hok)
  | reopen => exact h.keeps (FileSyncQueue.keeps_reopen h.synced)
  | nextBatch limit =>
    rcases hbatch : r.queue.nextBatch limit with ⟨result, queue⟩
    cases result with
    | error err =>
      rw [call, hbatch] at hok
      cases hok
    | ok batch =>
      have hret : (r.queue.nextBatch limit).1 = .ok batch := congrArg Prod.fst hbatch
      have hseqs := FileSyncQueue.nextBatch_seqs hret
      obtain ⟨hkeeps, hpending, hsettled⟩ := FileSyncQueue.keeps_nextBatch hread' h.synced hret
      rw [hbatch] at hkeeps hsettled
      have hstep : r.step (.nextBatch limit) = ⟨queue, r.batches ++ [batch]⟩ := by
        rw [step, call, hbatch]
      have hdispatched : (r.step (.nextBatch limit)).dispatched =
          r.dispatched ++ r.queue.batchSeqs limit := by
        rw [hstep, dispatched, List.flatten_append, List.map_append, List.flatten_singleton, hseqs]
        rfl
      refine ⟨?_, ?_, ?_, fun s hs => ?_⟩
      · rw [hstep]
        exact hkeeps.synced
      · rw [hstep]
        exact hkeeps.crypto.trans h.crypto_eq
      · rw [hdispatched, List.nodup_append]
        refine ⟨h.nodup, FileSyncQueue.batchSeqs_nodup limit r.queue, fun s hs t ht heq => ?_⟩
        exact hpending t ht (heq ▸ h.settled s hs)
      · rw [hdispatched, List.mem_append] at hs
        rw [hstep]
        rcases hs with hs | hs
        · exact hkeeps.settled s (h.settled s hs)
        · exact hsettled s hs

/-- **At most once.** In a run of calls and reopens that succeed, on a path with whatever file and
in whatever order the map iterates, no number is in two of the batches that were handed out. At
every point of it a batch has as many entries as are `Pending`, up to the limit, a number that is
in the map is not queued again, and a reopen finds the entries that are in memory. -/
theorem dispatched_at_most_once {crypto : Option CryptoEngine}
    (hread : FileSyncQueue.Readable crypto) (file : Option Bytes) (turns : ℕ → QueueTurn)
    {steps : List QueueStep} (hok : (start file crypto turns).Succeeds steps) :
    let r := (start file crypto turns).run steps
    r.dispatched.Nodup ∧
    (∀ limit batch, (r.queue.nextBatch limit).1 = .ok batch →
      batch.length = min limit (r.queue.mem.entries.countP fun e => e.state = .pending)) ∧
    (∀ seq ∈ r.queue.mem.seqs, r.queue.enqueue seq = (.ok (), r.queue)) ∧
    ∀ seq, r.queue.reopen.mem.get seq = r.queue.mem.get seq := by
  have hstart : (start file crypto turns).Inv crypto :=
    ⟨FileSyncQueue.newWithCrypto_synced _ _ _, rfl, List.nodup_nil, by simp [start, dispatched]⟩
  have hstep : ∀ (r : QueueRun) s, r.Inv crypto → (r.call s).1 = .ok () → (r.step s).Inv crypto :=
    fun _ _ h hcall => step_inv hread h hcall
  have hinv : ((start file crypto turns).run steps).Inv crypto :=
    Runs.All.invariant hstep hok hstart
  exact ⟨hinv.nodup, fun _ _ hbatch => FileSyncQueue.nextBatch_length hbatch,
    fun seq hseq => by rw [FileSyncQueue.enqueue, dif_pos hseq], hinv.synced.reopen_get⟩

end QueueRun

/-! ## A worked example -/

namespace QueueRun

attribute [local instance] sampleEntryCodec

/-- Handed out once, although it is queued again and the queue reopened. -/
def sampleQueueSteps : List QueueStep :=
  [.enqueue 1, .nextBatch 5, .enqueue 1, .reopen, .nextBatch 5, .markAcked [1]]

lemma sampleQueueSteps_succeed : (start none none sampleTurns).Succeeds sampleQueueSteps := by
  unfold Succeeds
  decide +kernel

/-- For these calls on a new path. -/
theorem dispatched_at_most_once_reopened :
    ((start none none sampleTurns).run sampleQueueSteps).dispatched.Nodup ∧
    (∀ limit batch,
      (((start none none sampleTurns).run sampleQueueSteps).queue.nextBatch limit).1 = .ok batch →
      batch.length = min limit (((start none none sampleTurns).run
        sampleQueueSteps).queue.mem.entries.countP fun e => e.state = .pending)) ∧
    (∀ seq ∈ ((start none none sampleTurns).run sampleQueueSteps).queue.mem.seqs,
      ((start none none sampleTurns).run sampleQueueSteps).queue.enqueue seq =
        (.ok (), ((start none none sampleTurns).run sampleQueueSteps).queue)) ∧
    ∀ seq, ((start none none sampleTurns).run sampleQueueSteps).queue.reopen.mem.get seq =
      ((start none none sampleTurns).run sampleQueueSteps).queue.mem.get seq :=
  dispatched_at_most_once sampleEntryCodec_readable none sampleTurns sampleQueueSteps_succeed

end QueueRun
end Rango
