import Mathlib.Data.List.Nodup
import Rango.Sync.Queue

/-!
# The calls on a file queue

What each call makes of the map, number by number, whether its write of the file succeeds or
not: which numbers are in it, and in which state an entry is.
-/

namespace Rango

namespace QueueStateMem

variable {mem : QueueStateMem} {seq : ℕ}

/-! ## The map -/

lemma get_eq_some_iff {e : SyncQueueEntry} :
    mem.get seq = some e ↔ e ∈ mem.entries ∧ e.seq = seq := by
  constructor
  · intro h
    exact ⟨List.mem_of_find?_eq_some h, by simpa using List.find?_some h⟩
  · rintro ⟨he, rfl⟩
    obtain ⟨e', he'⟩ : ∃ e', mem.get e.seq = some e' := by
      rw [← Option.isSome_iff_exists, get, List.find?_isSome]
      exact ⟨e, he, by simp⟩
    have hmem := List.mem_of_find?_eq_some he'
    have hseq : e'.seq = e.seq := by simpa using List.find?_some he'
    rw [he', List.inj_on_of_nodup_map mem.unique hmem he hseq]

lemma mem_seqs_iff : seq ∈ mem.seqs ↔ (mem.get seq).isSome := by
  rw [Option.isSome_iff_exists, seqs, List.mem_map]
  exact exists_congr fun e => get_eq_some_iff.symm

/-- The state of the entry under a number, if there is one. -/
def stateOf (mem : QueueStateMem) (seq : ℕ) : Option QueueState :=
  (mem.get seq).map SyncQueueEntry.state

@[simp] lemma modify_seqs (c : Change seq) : (mem.modify c).seqs = mem.seqs :=
  map_seq_modified c mem.entries

lemma get_modify (c : Change seq) (s : ℕ) :
    (mem.modify c).get s = if s = seq then (mem.get s).map c.apply else mem.get s := by
  have hkeeps : ∀ e, (if e.seq = seq then c.apply e else e).seq = e.seq := by
    intro e
    split_ifs with he
    · rw [c.keeps e he, he]
    · rfl
  have hfind : (mem.modify c).get s =
      (mem.get s).map fun e => if e.seq = seq then c.apply e else e := by
    simp only [get, modify, modified, List.find?_map, Function.comp_def, hkeeps]
  rw [hfind]
  cases hget : mem.get s with
  | none => simp
  | some e =>
    have hseq : e.seq = s := (get_eq_some_iff.mp hget).2
    rw [Option.map_some, Option.map_some, hseq]
    split_ifs <;> rfl

@[simp] lemma arrange_seqs (order : HashOrder) (s : ℕ) :
    s ∈ (mem.arrange order).seqs ↔ s ∈ mem.seqs :=
  ((order.perm mem.entries).map SyncQueueEntry.seq).mem_iff

lemma mem_insertVacant_seqs {e : SyncQueueEntry} (vacant : e.seq ∉ mem.seqs) {order : HashOrder}
    {s : ℕ} :
    s ∈ (mem.insertVacant e vacant order).seqs ↔ s ∈ mem.seqs ∨ s = e.seq := by
  rw [insertVacant, arrange_seqs, seqs, List.map_append, List.mem_append, List.map_singleton,
    List.mem_singleton]
  rfl

/-- A change that sets the state sets that of the entry under its number only. -/
lemma stateOf_modify {c : Change seq} {state : QueueState} (hc : ∀ e, (c.apply e).state = state)
    (s : ℕ) : (mem.modify c).stateOf s =
      if s = seq ∧ s ∈ mem.seqs then some state else mem.stateOf s := by
  simp only [stateOf, get_modify, mem_seqs_iff]
  by_cases hs : s = seq
  · cases hget : mem.get s with
    | none => simp
    | some e => simp [hs, hc]
  · simp [hs]

/-- One step of a loop that sets states. -/
structure Sets {α : Type} (f : QueueStateMem → α → QueueStateMem) (key : α → ℕ)
    (state : QueueState) (a : α) : Prop where
  seqs : ∀ mem, (f mem a).seqs = mem.seqs
  stateOf : ∀ mem s, (f mem a).stateOf s =
    if s = key a ∧ s ∈ mem.seqs then some state else mem.stateOf s

/-- A loop that sets states sets those of the entries that it comes to. -/
lemma foldl_sets {α : Type} {f : QueueStateMem → α → QueueStateMem} {key : α → ℕ}
    {state : QueueState} {as : List α} (h : ∀ a ∈ as, Sets f key state a)
    (mem : QueueStateMem) :
    (as.foldl f mem).seqs = mem.seqs ∧ ∀ s, (as.foldl f mem).stateOf s =
      if s ∈ as.map key ∧ s ∈ mem.seqs then some state else mem.stateOf s := by
  induction as generalizing mem with
  | nil => exact ⟨rfl, fun s => by simp⟩
  | cons a rest ih =>
    have ha := h a List.mem_cons_self
    have hrest := ih (fun x hx => h x (List.mem_cons_of_mem _ hx)) (f mem a)
    rw [List.foldl_cons]
    refine ⟨hrest.1.trans (ha.seqs mem), fun s => ?_⟩
    rw [hrest.2 s, ha.stateOf mem s, ha.seqs mem]
    simp only [List.map_cons, List.mem_cons]
    by_cases hmem : s ∈ mem.seqs
    · by_cases hs : s ∈ rest.map key
      · simp [hmem, hs]
      · simp [hmem, hs]
    · simp [hmem]

lemma sets_setState (state : QueueState) (seq : ℕ) :
    Sets (fun mem seq => mem.modify (FileSyncQueue.setState seq state)) id state seq :=
  ⟨fun _ => modify_seqs _, fun _ s => stateOf_modify (fun _ => rfl) s⟩

lemma sets_replace (e : SyncQueueEntry) : Sets replace SyncQueueEntry.seq e.state e :=
  ⟨fun _ => modify_seqs _, fun _ s => stateOf_modify (fun _ => rfl) s⟩

end QueueStateMem

namespace FileSyncQueue

/-! ## The calls -/

/-- The numbers of the next batch. -/
def batchSeqs (limit : ℕ) (q : FileSyncQueue) : List ℕ :=
  (q.pendingBatch limit).map SyncQueueEntry.seq

lemma batchSeqs_sublist (limit : ℕ) (q : FileSyncQueue) :
    (q.batchSeqs limit).Sublist q.mem.seqs :=
  ((List.take_sublist _ _).trans List.filter_sublist).map _

lemma batchSeqs_nodup (limit : ℕ) (q : FileSyncQueue) : (q.batchSeqs limit).Nodup :=
  q.mem.unique.sublist (batchSeqs_sublist limit q)

variable [QueueCodec] {q : FileSyncQueue}

/-- Writing the file leaves the map. -/
@[simp] lemma writeAll_mem (q : FileSyncQueue) : q.writeAll.2.mem = q.mem := by
  unfold writeAll
  cases (q.turns 0).fault with
  | none => rfl
  | some fault => cases fault <;> rfl

/-- What `enqueue` adds, also when its write fails. -/
lemma mem_enqueue_seqs {seq s : ℕ} :
    s ∈ (q.enqueue seq).2.mem.seqs ↔ s ∈ q.mem.seqs ∨ s = seq := by
  unfold enqueue
  split_ifs with hseq
  · exact ⟨Or.inl, fun h => h.elim id fun heq => heq ▸ hseq⟩
  · rw [writeAll_mem, withMem]
    exact QueueStateMem.mem_insertVacant_seqs hseq

/-- `next_batch` makes its entries `Inflight` and leaves the others. -/
lemma nextBatch_mem (limit : ℕ) (q : FileSyncQueue) :
    (q.nextBatch limit).2.mem.seqs = q.mem.seqs ∧
      ∀ s, (q.nextBatch limit).2.mem.stateOf s =
        if s ∈ q.batchSeqs limit then some .inflight else q.mem.stateOf s := by
  set batch : List SyncQueueEntry :=
    (q.pendingBatch limit).map fun e => { e with state := .inflight } with hbatch
  have hmem : (q.nextBatch limit).2.mem = batch.foldl QueueStateMem.replace q.mem := by
    simp only [nextBatch]
    split_ifs
    · rfl
    · have hwrite := writeAll_mem (q.withMem (batch.foldl QueueStateMem.replace q.mem))
      split
      · next heq => rw [heq] at hwrite; exact hwrite
      · next heq => rw [heq] at hwrite; exact hwrite
  have hstate : ∀ e ∈ batch, e.state = .inflight := by
    intro e he
    obtain ⟨e', -, rfl⟩ := List.mem_map.mp (hbatch ▸ he)
    rfl
  have hseqs : batch.map SyncQueueEntry.seq = q.batchSeqs limit := by
    rw [hbatch, List.map_map]
    rfl
  have hsets : ∀ e ∈ batch,
      QueueStateMem.Sets QueueStateMem.replace SyncQueueEntry.seq .inflight e := by
    intro e he
    rw [← hstate e he]
    exact QueueStateMem.sets_replace e
  have hfold := QueueStateMem.foldl_sets hsets q.mem
  rw [hmem]
  refine ⟨hfold.1, fun s => ?_⟩
  rw [hfold.2, hseqs]
  by_cases hs : s ∈ q.batchSeqs limit
  · rw [if_pos ⟨hs, (batchSeqs_sublist limit q).subset hs⟩, if_pos hs]
  · rw [if_neg fun h => hs h.1, if_neg hs]

/-- A batch that was returned is `Inflight`. -/
lemma nextBatch_eq {limit : ℕ} {batch : List SyncQueueEntry}
    (h : (q.nextBatch limit).1 = .ok batch) :
    batch = (q.pendingBatch limit).map fun e => { e with state := .inflight } := by
  simp only [nextBatch] at h
  split_ifs at h with hnil
  · exact (Except.ok.inj h).symm
  · split at h
    · cases h
    · exact (Except.ok.inj h).symm

/-- The numbers of a batch that was returned. -/
lemma nextBatch_seqs {limit : ℕ} {batch : List SyncQueueEntry}
    (h : (q.nextBatch limit).1 = .ok batch) :
    batch.map SyncQueueEntry.seq = q.batchSeqs limit := by
  rw [nextBatch_eq h, List.map_map]
  rfl

/-- `mark_acked` makes the entries it names `Acked` and leaves the others. -/
lemma markAcked_mem (seqs : List ℕ) (q : FileSyncQueue) :
    (q.markAcked seqs).2.mem.seqs = q.mem.seqs ∧
      ∀ s, (q.markAcked seqs).2.mem.stateOf s =
        if s ∈ seqs ∧ s ∈ q.mem.seqs then some .acked else q.mem.stateOf s := by
  have hfold := QueueStateMem.foldl_sets
    (fun seq (_ : seq ∈ seqs) => QueueStateMem.sets_setState .acked seq) q.mem
  rw [List.map_id] at hfold
  rw [markAcked, writeAll_mem]
  exact hfold

/-- `mark_failed` removes no entry. -/
lemma markFailed_seqs (seq : ℕ) (error : String) (q : FileSyncQueue) :
    (q.markFailed seq error).2.mem.seqs = q.mem.seqs := by
  rw [markFailed, writeAll_mem]
  exact QueueStateMem.modify_seqs _

end FileSyncQueue
end Rango
