import Rango.Server.AcceptanceTheorems
import Rango.Sync.BatchTheorems

/-!
# What a cycle marks as acknowledged

The server answers a push with numbers of its own log, and the client marks these numbers in
its queue. `acknowledged_iff`: when this marks what was accepted, and nothing else.
-/

namespace Rango

namespace ServerState

variable {ω η : Type} [Formatting] [Surroundings] [Oplog ω] {cp : ControlPlane η}
  {st : ServerState ω η} {req : PushRequest} {principal : AuthPrincipal} {resp : PushResponse}

/-- What becomes of the mutations of a push, in their order. -/
def pushOutcomes (cp : ControlPlane η) (st : ServerState ω η) (req : PushRequest)
    (principal : AuthPrincipal) : List Pushed :=
  if req.nodeId = principal.nodeId ∧ req.tenantId = principal.tenantId then
    (pushLoop cp st req req.mutations).1.toOption.getD []
  else []

lemma pushOutcomes_of_loop {st' : ServerState ω η} {outcomes : List Pushed}
    (hprincipal : req.nodeId = principal.nodeId ∧ req.tenantId = principal.tenantId)
    (hloop : pushLoop cp st req req.mutations = (.ok outcomes, st')) :
    pushOutcomes cp st req principal = outcomes := by
  rw [pushOutcomes, if_pos hprincipal, hloop]
  rfl

/-- An answer lists the numbers of the accepted mutations. -/
lemma processPush_answered (h : (st.processPush cp req principal).1 = .ok resp) :
    resp.acceptedSeqs = (pushOutcomes cp st req principal).filterMap Pushed.accepted ∧
      (pushOutcomes cp st req principal = [] ∨
        (req.nodeId = principal.nodeId ∧ req.tenantId = principal.tenantId) ∧
          ∃ st', pushLoop cp st req req.mutations =
            (.ok (pushOutcomes cp st req principal), st')) := by
  by_cases hnode : req.nodeId = principal.nodeId
  · by_cases htenant : req.tenantId = principal.tenantId
    · rw [processPush, if_neg (not_not.mpr hnode), if_neg (not_not.mpr htenant)] at h
      cases hloop : pushLoop cp st req req.mutations with
      | mk result st' =>
        cases result with
        | error fault =>
          rw [hloop] at h
          cases h
        | ok outcomes =>
          rw [hloop] at h
          rw [pushOutcomes_of_loop ⟨hnode, htenant⟩ hloop, ← Except.ok.inj h]
          exact ⟨rfl, Or.inr ⟨⟨hnode, htenant⟩, st', rfl⟩⟩
    · have hnone : pushOutcomes cp st req principal = [] := if_neg fun hp => htenant hp.2
      rw [processPush, if_neg (not_not.mpr hnode), if_pos htenant] at h
      rw [hnone, ← Except.ok.inj h]
      exact ⟨rfl, Or.inl rfl⟩
  · have hnone : pushOutcomes cp st req principal = [] := if_neg fun hp => hnode hp.1
    rw [processPush, if_pos hnode] at h
    rw [hnone, ← Except.ok.inj h]
    exact ⟨rfl, Or.inl rfl⟩

end ServerState

namespace SyncScheduler

/-! ## Marks and acceptance -/

/-- The push accepted the mutation of the entry with this number. -/
def AcceptedEntry (window : List OplogEntry) (outcomes : List Pushed) (seq : ℕ) : Prop :=
  ∃ p ∈ window.zip outcomes, p.1.seq = seq ∧ p.2.accepted ≠ none

/-- After a cycle, the entries of the batch are marked as the server decided, and no others. -/
structure Acknowledged (before after : QueueStateMem) (seqs : List ℕ) (window : List OplogEntry)
    (outcomes : List Pushed) : Prop where
  acked : ∀ seq ∈ seqs, after.stateOf seq = some .acked ↔ AcceptedEntry window outcomes seq
  settled : ∀ seq ∈ seqs, after.stateOf seq ≠ some .inflight
  others : ∀ seq, seq ∉ seqs → after.stateOf seq = before.stateOf seq

variable {window : List OplogEntry} {outcomes : List Pushed} {seqs : List ℕ}

lemma map_eq_map_some {α β : Type} {f : α → Option β} {l : List α}
    (h : ∀ a ∈ l, (f a).isSome) : l.map f = (l.filterMap f).map some := by
  induction l with
  | nil => rfl
  | cons a rest ih =>
    obtain ⟨b, hb⟩ := Option.isSome_iff_exists.mp (h a List.mem_cons_self)
    rw [List.map_cons, List.filterMap_cons_some hb, List.map_cons, hb,
      ih fun x hx => h x (List.mem_cons_of_mem _ hx)]

/-- Where a batch without repetitions is accepted under its own numbers, the window was the
batch and everything in it was accepted. -/
lemma accepted_all (hseqs : seqs.Nodup) (houtcomes : outcomes.length ≤ window.length)
    (hwindow : window.length ≤ seqs.length)
    (hnumbers : seqs ⊆ outcomes.filterMap Pushed.accepted)
    (hentries : seqs ⊆ window.map OplogEntry.seq) :
    (window.map OplogEntry.seq).Perm seqs ∧ (outcomes.filterMap Pushed.accepted).Perm seqs ∧
      outcomes.map Pushed.accepted = (outcomes.filterMap Pushed.accepted).map some := by
  have hle : seqs.length ≤ (outcomes.filterMap Pushed.accepted).length :=
    (hseqs.subperm hnumbers).length_le
  have hfilter : (outcomes.filterMap Pushed.accepted).length ≤ outcomes.length :=
    List.length_filterMap_le _ _
  have hkeys : (window.map OplogEntry.seq).length ≤ seqs.length := by simpa using hwindow
  refine ⟨((hseqs.subperm hentries).perm_of_length_le hkeys).symm,
    ((hseqs.subperm hnumbers).perm_of_length_le (by omega)).symm, ?_⟩
  have hall : ∀ o ∈ outcomes, (Pushed.accepted o).isSome := by
    rw [← List.filterMap_length_eq_length]
    omega
  exact map_eq_map_some hall

lemma acceptedEntry_of_mem (hlength : window.length = outcomes.length)
    (hall : ∀ o ∈ outcomes, o.accepted ≠ none) {seq : ℕ}
    (hseq : seq ∈ window.map OplogEntry.seq) : AcceptedEntry window outcomes seq := by
  obtain ⟨e, he, rfl⟩ := List.mem_map.mp hseq
  obtain ⟨i, hi, rfl⟩ := List.mem_iff_getElem.mp he
  have hi' : i < outcomes.length := hlength ▸ hi
  have hzip : (window[i], outcomes[i]) ∈ window.zip outcomes := by
    rw [← List.getElem_zip (h := by simpa using ⟨hi, hi'⟩)]
    exact List.getElem_mem _
  exact ⟨_, hzip, rfl, hall _ (List.getElem_mem hi')⟩

/-! ## The cycle -/

section
variable {ω ω' η χ : Type} [LogOplog ω] [QueueCodec] [CheckpointStore χ] [Formatting]
  [Surroundings] [Oplog ω'] [Arithmetic] {config : SyncConfig} {nodeId : String} {log : ω}
  {s : SyncState FileSyncQueue χ (Remote ω' η)} {checkpoint : ℕ} {resp : PushResponse}

/-- The push of a cycle. -/
def batchRequest (nodeId : String) (window : List OplogEntry) (checkpoint : ℕ) : PushRequest where
  nodeId := nodeId
  tenantId := "default"
  nameSpace := "default"
  mutations := window.map OplogEntry.mutation
  lastCheckpoint := checkpoint

omit [Formatting] [Surroundings] [Oplog ω'] [Arithmetic] in
lemma sends_batchSeqs (hsends : Sends config log s seqs window checkpoint) :
    seqs = s.queue.batchSeqs config.batchSize := by
  obtain ⟨batch, hbatch, rfl⟩ := hsends.batch
  exact FileSyncQueue.nextBatch_seqs hbatch

/-- What an answered push makes of the queue: the batch is `Inflight`, but for the accepted
numbers. -/
lemma runOnce_answered (hsends : Sends config log s seqs window checkpoint)
    (hanswer : (s.server.state.processPush s.server.cp (batchRequest nodeId window checkpoint)
      s.server.principal).1 = .ok resp) (seq : ℕ) :
    (runOnce config nodeId log s).2.queue.mem.stateOf seq =
      if seq ∈ resp.acceptedSeqs ∧ seq ∈ s.queue.mem.seqs then some .acked
      else if seq ∈ seqs then some .inflight else s.queue.mem.stateOf seq := by
  have hpush : SyncClient.push nodeId (window.map OplogEntry.mutation) checkpoint s.server =
      (.ok resp, (SyncClient.push nodeId (window.map OplogEntry.mutation) checkpoint
        s.server).2) := by
    refine Prod.ext ?_ rfl
    show SyncClient.receive "Push" (Remote.reply (s.server.state.processPush s.server.cp
      (batchRequest nodeId window checkpoint) s.server.principal).1) = .ok resp
    rw [hanswer]
    rfl
  have hseqs := sends_batchSeqs hsends
  have htaken := FileSyncQueue.nextBatch_mem config.batchSize s.queue
  have hmarked := FileSyncQueue.markAcked_mem resp.acceptedSeqs (takenQueue config s)
  have hqueue : (runOnce config nodeId log s).2.queue =
      ((takenQueue config s).markAcked resp.acceptedSeqs).2 := by
    rw [runOnce_queue, hsends.pushPhase_answered hpush, (pushAnswered_frame _ _).1]
    rfl
  have hkeep : (takenQueue config s).mem.seqs = s.queue.mem.seqs := htaken.1
  have hstate : (takenQueue config s).mem.stateOf seq =
      if seq ∈ s.queue.batchSeqs config.batchSize then some .inflight
      else s.queue.mem.stateOf seq := htaken.2 seq
  rw [hqueue, hmarked.2, hkeep, hstate, hseqs]

/-- Where all of the batch is accepted under its own numbers, the cycle marks it, and only
it. -/
lemma acknowledged_of_takesAll (hsends : Sends config log s seqs window checkpoint)
    (hanswer : (s.server.state.processPush s.server.cp (batchRequest nodeId window checkpoint)
      s.server.principal).1 = .ok resp)
    (hperm : (window.map OplogEntry.seq).Perm seqs)
    (hprincipal : nodeId = s.server.principal.nodeId ∧ "default" = s.server.principal.tenantId)
    {numbers : List ℕ} {st' : ServerState ω' η}
    (htakes : ServerState.TakesAll s.server.cp (batchRequest nodeId window checkpoint)
      s.server.state (window.map OplogEntry.mutation) numbers st')
    (hnumbers : numbers.Perm seqs) :
    Acknowledged s.queue.mem (runOnce config nodeId log s).2.queue.mem seqs window
      (s.server.state.pushOutcomes s.server.cp (batchRequest nodeId window checkpoint)
        s.server.principal) := by
  obtain ⟨outcomes, hloop, hall⟩ := ServerState.takesAll_iff.mp htakes
  have houtcomes := ServerState.pushOutcomes_of_loop hprincipal hloop
  have haccepted := (ServerState.processPush_answered hanswer).1
  have hlist : outcomes.filterMap Pushed.accepted = numbers := by
    have h := congrArg (List.filterMap id) hall
    simpa [List.filterMap_map] using h
  rw [houtcomes, hlist] at haccepted
  rw [houtcomes]
  have hqueued : seqs ⊆ s.queue.mem.seqs :=
    sends_batchSeqs hsends ▸ (FileSyncQueue.batchSeqs_sublist _ _).subset
  have hstate : ∀ seq, (runOnce config nodeId log s).2.queue.mem.stateOf seq =
      if seq ∈ seqs then some .acked else s.queue.mem.stateOf seq := by
    intro seq
    rw [runOnce_answered hsends hanswer, haccepted]
    by_cases hseq : seq ∈ seqs
    · rw [if_pos ⟨hnumbers.mem_iff.mpr hseq, hqueued hseq⟩, if_pos hseq]
    · rw [if_neg fun hin => hseq (hnumbers.mem_iff.mp hin.1), if_neg hseq, if_neg hseq]
  refine ⟨fun seq hseq => ?_, fun seq hseq => ?_, fun seq hseq => ?_⟩
  · have hlength : window.length = outcomes.length := by
      rw [ServerState.pushLoop_length hloop]
      exact (List.length_map OplogEntry.mutation).symm
    have hsome : ∀ o ∈ outcomes, o.accepted ≠ none := by
      intro o ho hnone
      have hmem : o.accepted ∈ numbers.map some := hall ▸ List.mem_map_of_mem ho
      rw [hnone] at hmem
      simp at hmem
    rw [hstate, if_pos hseq]
    exact iff_of_true rfl (acceptedEntry_of_mem hlength hsome (hperm.mem_iff.mpr hseq))
  · rw [hstate, if_pos hseq]
    decide
  · rw [hstate, if_neg hseq]

/-- **Acknowledgements.** A cycle whose push was answered marks what the server decided exactly
when the window is the batch and the server takes all of it, under the numbers that the batch
has in the client's own log. -/
theorem acknowledged_iff (hsends : Sends config log s seqs window checkpoint)
    (hanswer : (s.server.state.processPush s.server.cp (batchRequest nodeId window checkpoint)
      s.server.principal).1 = .ok resp) :
    Acknowledged s.queue.mem (runOnce config nodeId log s).2.queue.mem seqs window
        (s.server.state.pushOutcomes s.server.cp (batchRequest nodeId window checkpoint)
          s.server.principal) ↔
      (window.map OplogEntry.seq).Perm seqs ∧
        (nodeId = s.server.principal.nodeId ∧ "default" = s.server.principal.tenantId) ∧
        ∃ numbers st', ServerState.TakesAll s.server.cp (batchRequest nodeId window checkpoint)
          s.server.state (window.map OplogEntry.mutation) numbers st' ∧ numbers.Perm seqs := by
  constructor
  · intro h
    set req := batchRequest nodeId window checkpoint with hreq
    set outcomes := s.server.state.pushOutcomes s.server.cp req s.server.principal with houtcomes
    have hstate := runOnce_answered hsends hanswer
    obtain ⟨haccepted, hloop⟩ := ServerState.processPush_answered hanswer
    rw [← houtcomes] at haccepted hloop
    have hseqs := sends_batchSeqs hsends
    -- nothing of the batch is left in flight, so all its numbers are among the accepted ones
    have hnumbers : seqs ⊆ outcomes.filterMap Pushed.accepted := by
      intro seq hseq
      by_contra hout
      refine h.settled seq hseq ?_
      rw [hstate, haccepted, if_neg fun hin => hout hin.1, if_pos hseq]
    have hentries : seqs ⊆ window.map OplogEntry.seq := by
      intro seq hseq
      have hqueued : seq ∈ s.queue.mem.seqs :=
        (FileSyncQueue.batchSeqs_sublist _ _).subset (hseqs ▸ hseq)
      have hacked : (runOnce config nodeId log s).2.queue.mem.stateOf seq = some .acked := by
        rw [hstate, haccepted, if_pos ⟨hnumbers hseq, hqueued⟩]
      obtain ⟨p, hp, hpseq, -⟩ := (h.acked seq hseq).mp hacked
      exact List.mem_map.mpr ⟨p.1, (List.of_mem_zip hp).1, hpseq⟩
    have hwindow : window.length ≤ seqs.length := by
      rw [LogOplog.readSince_ok log _ _ window (List.length_pos_iff.mpr hsends.nonempty)
        hsends.window]
      exact List.length_take_le _ _
    rcases hloop with hnone | ⟨hprincipal, st', hloop⟩
    · rw [hnone, List.filterMap_nil, List.subset_nil] at hnumbers
      exact absurd hnumbers hsends.nonempty
    · have hlength : outcomes.length ≤ window.length := by
        rw [ServerState.pushLoop_length hloop, hreq, batchRequest, List.length_map]
      obtain ⟨hperm, hnumbersPerm, hall⟩ :=
        accepted_all (hseqs ▸ FileSyncQueue.batchSeqs_nodup _ _) hlength hwindow hnumbers hentries
      exact ⟨hperm, hprincipal, _, st',
        ServerState.takesAll_iff.mpr ⟨outcomes, hloop, hall⟩, hnumbersPerm⟩
  · rintro ⟨hperm, hprincipal, numbers, st', htakes, hnumbers⟩
    exact acknowledged_of_takesAll hsends hanswer hperm hprincipal htakes hnumbers

end
end SyncScheduler

/-! ## A client and a new server -/

section
attribute [local instance] sampleQueueCodec sampleJsonCodec Formatting.sample Surroundings.sample
  Arithmetic.sample

/-- A local write to collection `"default"`. -/
def sampleWrite (writeId : String) : OplogEntry where
  seq := 0
  timestamp := 0
  mutation := .sample "default" "default" "d" .insert (some ⟨[("_id", .string "d")]⟩) 0 "1-0-aaaa"
    writeId
  origin := .localWrite
  applied := true
  snapshotAnchor := none

/-- A log of two such writes. -/
def sampleWrites : MemLog :=
  (Oplog.append (sampleWrite "w2") (Oplog.append (sampleWrite "w1") MemLog.new).2).2

/-- A new server, as node `"node"` of tenant `"default"` reaches it. -/
def sampleRemote : Remote MemLog Unit :=
  ⟨ControlPlane.default, ⟨"node", "default"⟩, .withControlPlane MemLog.new () 0⟩

/-- A client of that server with one entry of its queue in one state and one pending. -/
def sampleAcker (first : QueueState) (pending : ℕ) (unique : [3 - pending, pending].Nodup) :
    SyncState FileSyncQueue FileCheckpointStore (Remote MemLog Unit) where
  queue :=
    { sampleQueue [] List.nodup_nil with
      mem := ⟨[⟨3 - pending, first, 0, none⟩, ⟨pending, .pending, 0, none⟩], unique⟩ }
  checkpoint := sampleStore
  server := sampleRemote

/-- The cycle of such a client pushes its pending entry. -/
def sampleAckerRequest (pending : ℕ) : PushRequest :=
  SyncScheduler.batchRequest "node" [(sampleWrite ("w" ++ Nat.repr pending)).withSeq pending] 0

/-- The window of that cycle. -/
def sampleAckerWindow (pending : ℕ) : List OplogEntry :=
  [(sampleWrite ("w" ++ Nat.repr pending)).withSeq pending]

/-- The queue's map after that cycle. -/
def sampleAcked (first : QueueState) (pending : ℕ) (unique : [3 - pending, pending].Nodup) :
    QueueStateMem :=
  (SyncScheduler.runOnce .default "node" sampleWrites
    (sampleAcker first pending unique)).2.queue.mem

/-- What the server makes of the push. -/
def sampleAckerOutcomes (pending : ℕ) : List Pushed :=
  sampleRemote.state.pushOutcomes sampleRemote.cp (sampleAckerRequest pending)
    sampleRemote.principal

/-- The second write of a client happens to be the second entry of the server's log. -/
theorem acknowledged_iff_second :
    SyncScheduler.Acknowledged (sampleAcker .acked 2 (by decide)).queue.mem
      (sampleAcked .acked 2 (by decide)) [2] (sampleAckerWindow 2) (sampleAckerOutcomes 2) := by
  have hsends : SyncScheduler.Sends .default sampleWrites (sampleAcker .acked 2 (by decide)) [2]
      (sampleAckerWindow 2) 0 :=
    { batch := ⟨sampleQueued .inflight [2], by decide +kernel, rfl⟩
      nonempty := by decide
      window := by decide +kernel
      checkpoint := by decide +kernel }
  have hanswer : (sampleRemote.state.processPush sampleRemote.cp (sampleAckerRequest 2)
      sampleRemote.principal).1 = .ok ⟨[2], 2, 0, 0, [⟨.allow, "trust_score:1.00"⟩]⟩ := by
    decide +kernel
  have hloop : (ServerState.pushLoop sampleRemote.cp sampleRemote.state (sampleAckerRequest 2)
      (sampleAckerRequest 2).mutations).1 =
        .ok [⟨some 2, false, ⟨.allow, "trust_score:1.00"⟩⟩] := by
    decide +kernel
  exact (SyncScheduler.acknowledged_iff hsends hanswer).mpr
    ⟨by decide, ⟨rfl, rfl⟩, [2], _,
      ServerState.takesAll_iff.mpr ⟨_, Prod.fst_eq_iff.mp hloop, rfl⟩, .refl _⟩

/-- A client's first write is the second entry of the server's log: it stays in flight, and the
second write, which failed before, is marked instead. -/
theorem acknowledges_other_entry :
    SyncScheduler.Sends .default sampleWrites (sampleAcker .failed 1 (by decide)) [1]
        (sampleAckerWindow 1) 0 ∧
      (sampleRemote.state.processPush sampleRemote.cp (sampleAckerRequest 1)
        sampleRemote.principal).1 = .ok ⟨[2], 2, 0, 0, [⟨.allow, "trust_score:1.00"⟩]⟩ ∧
      SyncScheduler.AcceptedEntry (sampleAckerWindow 1) (sampleAckerOutcomes 1) 1 ∧
      (sampleAcked .failed 1 (by decide)).stateOf 1 = some .inflight ∧
      (sampleAcked .failed 1 (by decide)).stateOf 2 = some .acked ∧
      ¬ SyncScheduler.Acknowledged (sampleAcker .failed 1 (by decide)).queue.mem
        (sampleAcked .failed 1 (by decide)) [1] (sampleAckerWindow 1) (sampleAckerOutcomes 1) := by
  have hinflight : (sampleAcked .failed 1 (by decide)).stateOf 1 = some .inflight := by
    decide +kernel
  refine ⟨?_, by decide +kernel, ?_, hinflight, by decide +kernel, ?_⟩
  · exact
      { batch := ⟨sampleQueued .inflight [1], by decide +kernel, rfl⟩
        nonempty := by decide
        window := by decide +kernel
        checkpoint := by decide +kernel }
  · unfold SyncScheduler.AcceptedEntry
    decide +kernel
  · intro h
    exact h.settled 1 (List.mem_singleton.mpr rfl) hinflight

end
end Rango
