import Rango.Lib.Paging
import Rango.Lib.Runs
import Rango.Oplog.FileLog
import Rango.Sync.AckTheorems
import Rango.Sync.Workspace

/-!
# What the sync command queues

The loop of `run_sync` queues the entries of the oplog from the stored checkpoint on.
`all_queued_iff` says for which workspaces it thereby queues all of them, and `all_queued`
carries this through runs of local writes and sync commands.
-/

namespace Rango

/-! ## The loop -/

section
variable [Arithmetic]

lemma addOne_of_stored {n : ℕ} (h : n < 2 ^ 63) : addOne n = .ok (n + 1) :=
  if_pos (by omega)

lemma addOne_le {n m : ℕ} (h : addOne n = .ok m) : m ≤ n + 1 := by
  unfold addOne at h
  split_ifs at h
  · rw [← Except.ok.inj h]
  · rw [← Except.ok.inj h]
    exact Nat.mod_le _ _

variable [QueueCodec] {seq : ℕ} {queue : FileSyncQueue}

/-- The inner loop queues entries of its page, and removes none. -/
lemma enqueueEntries_seqs (seq : ℕ) (queue : FileSyncQueue) (es : List OplogEntry) :
    queue.mem.seqs ⊆ (enqueueEntries seq queue es).2.mem.seqs ∧
      (enqueueEntries seq queue es).2.mem.seqs ⊆ queue.mem.seqs ++ es.map OplogEntry.seq := by
  induction es generalizing seq queue with
  | nil => exact ⟨List.Subset.refl _, List.subset_append_left _ _⟩
  | cons e rest ih =>
    have hmem : ∀ s, s ∈ (queue.enqueue e.seq).2.mem.seqs ↔ s ∈ queue.mem.seqs ∨ s = e.seq :=
      fun s => FileSyncQueue.mem_enqueue_seqs
    have hfirst : queue.mem.seqs ⊆ (queue.enqueue e.seq).2.mem.seqs ∧
        (queue.enqueue e.seq).2.mem.seqs ⊆
          queue.mem.seqs ++ (e :: rest).map OplogEntry.seq := by
      refine ⟨fun s hs => (hmem s).mpr (Or.inl hs), fun s hs => ?_⟩
      rcases (hmem s).mp hs with hs | hs
      · exact List.mem_append_left _ hs
      · exact List.mem_append_right _ (hs ▸ List.mem_cons_self)
    unfold enqueueEntries
    split
    · next heq => rw [show (queue.enqueue e.seq) = _ from heq] at hfirst; exact hfirst
    · next queue' heq =>
      rw [show (queue.enqueue e.seq) = _ from heq] at hfirst hmem
      split
      · exact hfirst
      · next seq' _ =>
        obtain ⟨hsub, hsup⟩ := ih seq' queue'
        refine ⟨fun s hs => hsub (hfirst.1 hs), fun s hs => ?_⟩
        rcases List.mem_append.mp (hsup hs) with hs | hs
        · exact hfirst.2 hs
        · exact List.mem_append_right _ (List.mem_cons_of_mem _ hs)

/-- When the inner loop ends, all its entries are queued, and the loop goes on behind the last
one. -/
lemma enqueueEntries_ok {es : List OplogEntry} (hstored : ∀ e ∈ es, e.seq < 2 ^ 63)
    {seq seq' : ℕ} {queue queue' : FileSyncQueue}
    (h : enqueueEntries seq queue es = (.ok seq', queue')) :
    (∀ e ∈ es, e.seq ∈ queue'.mem.seqs) ∧ (es.getLast?.map fun e => e.seq + 1).getD seq = seq' := by
  induction es generalizing seq queue with
  | nil =>
    obtain ⟨hseq, rfl⟩ := Prod.mk.inj h
    exact ⟨by simp, Except.ok.inj hseq⟩
  | cons e rest ih =>
    have hmem : ∀ s, s ∈ (queue.enqueue e.seq).2.mem.seqs ↔ s ∈ queue.mem.seqs ∨ s = e.seq :=
      fun s => FileSyncQueue.mem_enqueue_seqs
    rw [enqueueEntries, addOne_of_stored (hstored e List.mem_cons_self)] at h
    split at h
    · cases (Prod.mk.inj h).1
    · next queue₁ heq =>
      rw [show (queue.enqueue e.seq) = _ from heq] at hmem
      dsimp only at h
      obtain ⟨hall, hlast⟩ := ih (fun x hx => hstored x (List.mem_cons_of_mem _ hx)) h
      have hkeep := (enqueueEntries_seqs (e.seq + 1) queue₁ rest).1
      rw [h] at hkeep
      refine ⟨fun x hx => ?_, ?_⟩
      · rcases List.mem_cons.mp hx with rfl | hx
        · exact hkeep ((hmem _).mpr (Or.inr rfl))
        · exact hall x hx
      · rw [← hlast, List.getLast?_cons]
        cases rest.getLast? <;> rfl

variable {ω : Type} [DurableOplog ω] {log : ω}

/-- **The outer loop.** When it ends, it has queued the entries from `seq` on, and no others. -/
theorem enqueueLoop_ok {fuel : ℕ} {queue' : FileSyncQueue}
    (h : enqueueLoop log fuel seq queue = some (.ok (), queue')) :
    (∀ e ∈ toEntries log, seq ≤ e.seq → e.seq ∈ queue'.mem.seqs) ∧
      queue.mem.seqs ⊆ queue'.mem.seqs ∧
      ∀ s ∈ queue'.mem.seqs, s ∈ queue.mem.seqs ∨ seq ≤ s := by
  induction fuel generalizing seq queue with
  | zero => cases h
  | succ fuel ih =>
    unfold enqueueLoop at h
    have hfrom : ((toEntries log).filter fun e => seq ≤ e.seq).Pairwise fun a b => a.seq < b.seq :=
      (LogOplog.increasing log).filter _
    split at h
    · cases (Prod.mk.inj (Option.some.inj h)).1
    · next hread =>
      -- an empty page: there is no entry from `seq` on
      obtain ⟨-, rfl⟩ := Prod.mk.inj (Option.some.inj h)
      have hpage := LogOplog.readSince_ok log seq enqueuePage [] (by decide) hread
      rw [entriesSince, eq_comm, List.take_eq_nil_iff] at hpage
      have hnone := hpage.resolve_left (by decide)
      rw [List.filter_eq_nil_iff] at hnone
      refine ⟨fun e he hseq => absurd hseq ?_, List.Subset.refl _, fun s hs => Or.inl hs⟩
      simpa using hnone e he
    · next e rest hread =>
      have hpage := LogOplog.readSince_ok log seq enqueuePage (e :: rest) (by decide) hread
      have hmem : ∀ x ∈ e :: rest, x ∈ toEntries log ∧ seq ≤ x.seq := by
        intro x hx
        rw [hpage] at hx
        obtain ⟨hxl, hxs⟩ := List.mem_filter.mp (List.mem_of_mem_take hx)
        exact ⟨hxl, by simpa using hxs⟩
      have hstored : ∀ x ∈ e :: rest, x.seq < 2 ^ 63 := fun x hx =>
        DurableOplog.seq_stored log x (hmem x hx).1
      split at h
      · cases (Prod.mk.inj (Option.some.inj h)).1
      · next seq' queue₁ hpageRun =>
        obtain ⟨hall, hlast⟩ := enqueueEntries_ok hstored hpageRun
        obtain ⟨hkeep, honly⟩ := enqueueEntries_seqs seq queue (e :: rest)
        rw [hpageRun] at hkeep honly
        obtain ⟨hlater, hkeep', honly'⟩ := ih h
        obtain ⟨last, hget⟩ : ∃ last, (e :: rest).getLast? = some last :=
          ⟨_, List.getLast?_eq_some_getLast (List.cons_ne_nil e rest)⟩
        have hlastMem : last ∈ e :: rest := List.mem_of_getLast? hget
        rw [hget] at hlast
        replace hlast : last.seq + 1 = seq' := hlast
        refine ⟨fun x hx hseq => ?_, fun s hs => hkeep' (hkeep hs), fun s hs => ?_⟩
        · by_cases hle : x.seq ≤ last.seq
          · -- with the last entry of the page, the page holds every entry before it
            have hx' : x ∈ e :: rest := by
              rw [hpage] at hlastMem ⊢
              exact Paging.mem_take_of_le hfrom hlastMem
                (List.mem_filter.mpr ⟨hx, by simpa using hseq⟩) hle
            exact hkeep' (hall x hx')
          · exact hlater x hx (by omega)
        · rcases honly' s hs with hs | hs
          · rcases List.mem_append.mp (honly hs) with hs | hs
            · exact Or.inl hs
            · obtain ⟨x, hx, rfl⟩ := List.mem_map.mp hs
              exact Or.inr (hmem x hx).2
          · have := (hmem last hlastMem).2
            exact Or.inr (by omega)

/-- However the outer loop ends, it removes nothing from the queue. -/
lemma enqueueLoop_keeps {fuel : ℕ} {result : Except Fault Unit} {queue' : FileSyncQueue}
    (h : enqueueLoop log fuel seq queue = some (result, queue')) :
    queue.mem.seqs ⊆ queue'.mem.seqs := by
  induction fuel generalizing seq queue with
  | zero => cases h
  | succ fuel ih =>
    unfold enqueueLoop at h
    split at h
    · rw [(Prod.mk.inj (Option.some.inj h)).2]
      exact List.Subset.refl _
    · rw [(Prod.mk.inj (Option.some.inj h)).2]
      exact List.Subset.refl _
    · next e rest _ =>
      have hkeep := (enqueueEntries_seqs seq queue (e :: rest)).1
      split at h
      · next heq =>
        rw [heq] at hkeep
        rw [← (Prod.mk.inj (Option.some.inj h)).2]
        exact hkeep
      · next heq =>
        rw [heq] at hkeep
        exact fun s hs => ih h (hkeep hs)

/-- **Termination.** With more fuel than there are entries from `seq` on, the outer loop
ends. -/
theorem enqueueLoop_total {fuel : ℕ}
    (hfuel : ((toEntries log).filter fun e => seq ≤ e.seq).length < fuel) :
    ∃ outcome, enqueueLoop log fuel seq queue = some outcome := by
  induction fuel generalizing seq queue with
  | zero => cases hfuel
  | succ fuel ih =>
    unfold enqueueLoop
    split
    · exact ⟨_, rfl⟩
    · exact ⟨_, rfl⟩
    · next e rest hread =>
      split
      · exact ⟨_, rfl⟩
      · next seq' queue₁ hpageRun =>
        apply ih
        have hpage := LogOplog.readSince_ok log seq enqueuePage (e :: rest) (by decide) hread
        have hmem : ∀ x ∈ e :: rest, x ∈ (toEntries log).filter fun e => seq ≤ e.seq := by
          intro x hx
          rw [hpage] at hx
          exact List.mem_of_mem_take hx
        have hstored : ∀ x ∈ e :: rest, x.seq < 2 ^ 63 := fun x hx =>
          DurableOplog.seq_stored log x (List.mem_filter.mp (hmem x hx)).1
        obtain ⟨last, hget⟩ : ∃ last, (e :: rest).getLast? = some last :=
          ⟨_, List.getLast?_eq_some_getLast (List.cons_ne_nil e rest)⟩
        have hlast := (enqueueEntries_ok hstored hpageRun).2
        rw [hget] at hlast
        replace hlast : last.seq + 1 = seq' := hlast
        have hlastMem := hmem last (List.mem_of_getLast? hget)
        have hseq : seq ≤ last.seq := by simpa using (List.mem_filter.mp hlastMem).2
        -- the last entry of the page is behind the loop now
        have hfewer : ((toEntries log).filter fun e => seq' ≤ e.seq).length <
            ((toEntries log).filter fun e => seq ≤ e.seq).length := by
          have hsplit : (toEntries log).filter (fun e => seq' ≤ e.seq) =
              ((toEntries log).filter fun e => seq ≤ e.seq).filter fun e => seq' ≤ e.seq := by
            rw [List.filter_filter]
            refine List.filter_congr fun x _ => ?_
            rw [← Bool.decide_and, decide_eq_decide]
            omega
          rw [hsplit, List.length_filter_lt_length_iff_exists]
          exact ⟨last, hlastMem, by simp only [decide_eq_true_eq]; omega⟩
        omega

end

/-! ## The command -/

namespace Workspace

variable {ω : Type} [DurableOplog ω] [JsonCodec] {ws ws' : Workspace ω}

/-- Every entry of the oplog is in the queue. -/
def AllQueued (ws : Workspace ω) : Prop := ∀ e ∈ toEntries ws.oplog, e.seq ∈ ws.queue.mem.seqs

/-- Every entry up to the stored checkpoint is in the queue. -/
def Covered (ws : Workspace ω) : Prop :=
  ∀ c, CheckpointStore.get ws.checkpoint = .ok c →
    ∀ e ∈ toEntries ws.oplog, e.seq ≤ c → e.seq ∈ ws.queue.mem.seqs

lemma AllQueued.covered (h : ws.AllQueued) : ws.Covered := fun _ _ e he _ => h e he

variable [QueueCodec] [Arithmetic]

/-- **One command.** When the loop ends, every entry is queued exactly when those before its
start were queued. -/
theorem all_queued_iff {fuel c start : ℕ} (hget : CheckpointStore.get ws.checkpoint = .ok c)
    (hstart : addOne c = .ok start) (h : ws.enqueueWrites fuel = some (.ok (), ws')) :
    ws'.AllQueued ↔ ∀ e ∈ toEntries ws.oplog, e.seq < start → e.seq ∈ ws.queue.mem.seqs := by
  unfold enqueueWrites at h
  rw [hget] at h
  dsimp only at h
  rw [hstart, Option.map_eq_some_iff] at h
  obtain ⟨⟨result, queue⟩, hloop, hout⟩ := h
  obtain ⟨rfl, rfl⟩ := Prod.mk.inj hout
  obtain ⟨hfrom, hkeep, honly⟩ := enqueueLoop_ok hloop
  constructor
  · intro hall e he hlt
    exact (honly _ (hall e he)).resolve_right (by omega)
  · intro hbefore e he
    by_cases hlt : e.seq < start
    · exact hkeep (hbefore e he hlt)
    · exact hfrom e he (by omega)

/-! ## Runs -/

variable {ν : Type}

/-- What a step must not meet: a local write whose number the stored checkpoint has already
passed, or a queue file that lost an entry up to the checkpoint. -/
def Event.Safe (ws : Workspace ω × ν) : Event → Prop
  | .write _ => ∀ c, CheckpointStore.get ws.1.checkpoint = .ok c →
      c ≤ CountingOplog.counter ws.1.oplog
  | .openLog => True
  | .sync _ => ∀ c, CheckpointStore.get ws.1.checkpoint = .ok c →
      ∀ e ∈ toEntries ws.1.oplog, e.seq ≤ c → e.seq ∈ ws.1.queue.mem.seqs →
        e.seq ∈ ws.1.queue.reopen.mem.seqs

omit [QueueCodec] [Arithmetic] in
/-- A write numbered above the checkpoint keeps the workspace covered. -/
lemma Covered.write (h : ws.Covered) (entry : OplogEntry)
    (hsafe : ∀ c, CheckpointStore.get ws.checkpoint = .ok c →
      c ≤ CountingOplog.counter ws.oplog) :
    Covered { ws with oplog := (Oplog.append entry ws.oplog).2 } := by
  intro c hget e he hle
  cases happend : Oplog.append entry ws.oplog with
  | mk result log =>
    rw [happend] at he
    cases result with
    | error err =>
      rw [LogOplog.append_error _ _ _ _ happend] at he
      exact h c hget e he hle
    | ok seq =>
      rw [LogOplog.append_ok _ _ _ _ happend] at he
      rcases List.mem_append.mp he with he | he
      · exact h c hget e he hle
      · rw [List.mem_singleton.mp he] at hle
        have hseq : (entry.withSeq seq).seq = CountingOplog.counter ws.oplog + 1 :=
          (CountingOplog.append_counts _ _ _ _ happend).1
        have hbound := hsafe c hget
        omega

omit [QueueCodec] [Arithmetic] in
/-- A workspace stays covered while its entries and its checkpoint are the same and nothing
leaves the queue. -/
lemma Covered.of_subset (h : ws.Covered) (hentries : toEntries ws'.oplog = toEntries ws.oplog)
    (hcheckpoint : ws'.checkpoint = ws.checkpoint)
    (hqueue : ws.queue.mem.seqs ⊆ ws'.queue.mem.seqs) : ws'.Covered := by
  intro c hget e he hle
  rw [hcheckpoint] at hget
  rw [hentries] at he
  exact hqueue (h c hget e he hle)

/-- The loop changes the queue only, and removes nothing from it. -/
lemma enqueueWrites_frame {fuel : ℕ} {result : Except Fault Unit}
    (h : ws.enqueueWrites fuel = some (result, ws')) :
    ws'.oplog = ws.oplog ∧ ws'.checkpoint = ws.checkpoint ∧
      ws.queue.mem.seqs ⊆ ws'.queue.mem.seqs := by
  unfold enqueueWrites at h
  split at h
  · rw [(Prod.mk.inj (Option.some.inj h)).2]
    exact ⟨rfl, rfl, List.Subset.refl _⟩
  · split at h
    · rw [(Prod.mk.inj (Option.some.inj h)).2]
      exact ⟨rfl, rfl, List.Subset.refl _⟩
    · obtain ⟨⟨outcome, queue⟩, hloop, hout⟩ := Option.map_eq_some_iff.mp h
      obtain ⟨-, rfl⟩ := Prod.mk.inj hout
      exact ⟨rfl, rfl, enqueueLoop_keeps hloop⟩

/-- When the loop ends in a covered workspace, every entry is queued. -/
lemma Covered.allQueued (h : ws.Covered) {fuel : ℕ}
    (hloop : ws.enqueueWrites fuel = some (.ok (), ws')) : ws'.AllQueued := by
  have hsplit := hloop
  unfold enqueueWrites at hsplit
  split at hsplit
  · cases (Prod.mk.inj (Option.some.inj hsplit)).1
  · next c hget =>
    split at hsplit
    · cases (Prod.mk.inj (Option.some.inj hsplit)).1
    · next start hstart =>
      refine (all_queued_iff hget hstart hloop).mpr fun e he hlt => h c hget e he ?_
      have hle := addOne_le hstart
      omega

omit [JsonCodec] [Arithmetic] in
/-- An opened workspace has the entries and the checkpoint of the files. -/
lemma opened_frame (h : ws.opened = .ok ws') :
    toEntries ws'.oplog = toEntries ws.oplog ∧ ws'.checkpoint = ws.checkpoint ∧
      ws'.queue = ws.queue.reopen := by
  unfold opened at h
  split at h
  · cases h
  · next oplog hopen =>
    rw [← Except.ok.inj h]
    exact ⟨DurableOplog.reopen_ok _ _ hopen, rfl, rfl⟩

omit [Arithmetic] in
/-- A queue file that lost nothing up to the checkpoint is covered when it is opened. -/
lemma Covered.opened {server : ν} {nodeId : String} (h : ws.Covered)
    (hsafe : Event.Safe (ws, server) (.sync nodeId)) (hopen : ws.opened = .ok ws') :
    ws'.Covered := by
  obtain ⟨hentries, hcheckpoint, hqueue⟩ := opened_frame hopen
  intro c hget e he hle
  rw [hcheckpoint] at hget
  rw [hentries] at he
  rw [hqueue]
  exact hsafe c hget e he hle (h c hget e he hle)

variable [SyncServer ν]

omit [Arithmetic] in
/-- A cycle leaves the oplog, and neither adds to the queue nor removes from it. -/
lemma syncCycle_frame (nodeId : String) (ws : Workspace ω) (server : ν) :
    (ws.syncCycle nodeId server).2.1.oplog = ws.oplog ∧
      (ws.syncCycle nodeId server).2.1.queue.mem.seqs = ws.queue.mem.seqs :=
  ⟨rfl, SyncScheduler.runOnce_seqs _ _ _ _⟩

/-- What one step keeps. -/
lemma step_covered (fuel : ℕ) {s : Workspace ω × ν} {ev : Event} (h : s.1.Covered)
    (hsafe : ev.Safe s) : (step fuel s ev).1.Covered := by
  cases ev with
  | write entry => exact h.write entry hsafe
  | openLog =>
    simp only [step]
    split
    · exact h
    · next oplog hopen =>
      exact h.of_subset (DurableOplog.reopen_ok _ _ hopen) rfl (List.Subset.refl _)
  | sync nodeId =>
    simp only [step, runSync]
    cases hopen : s.1.opened with
    | error err => exact h
    | ok opened =>
      have hopened : opened.Covered := h.opened hsafe hopen
      dsimp only
      cases hloop : opened.enqueueWrites fuel with
      | none => exact h
      | some outcome =>
        obtain ⟨result, queued⟩ := outcome
        cases result with
        | error fault =>
          obtain ⟨hoplog, hcheckpoint, hqueue⟩ := enqueueWrites_frame hloop
          exact hopened.of_subset (by rw [hoplog]) hcheckpoint hqueue
        | ok =>
          -- the cycle may store any checkpoint: the whole oplog is queued by now
          have hall : queued.AllQueued := hopened.allQueued hloop
          obtain ⟨hoplog, hseqs⟩ := syncCycle_frame nodeId queued s.2
          refine AllQueued.covered fun e he => ?_
          rw [hoplog] at he
          rw [hseqs]
          exact hall e he

/-- **Every local write gets queued.** In a run from a workspace without a checkpoint, in which
no local write is numbered at or below the stored checkpoint and the queue file loses nothing
up to it, every sync command has queued the whole oplog when its loop ends. -/
theorem all_queued {fuel fuel' : ℕ} {s : Workspace ω × ν} {events : List Event} {nodeId : String}
    (hnew : s.1.checkpoint.file = none)
    (hsafe : Runs.All (step fuel) (fun s ev => Event.Safe s ev) s (events ++ [.sync nodeId]))
    (hopen : (run fuel s events).1.opened = .ok ws)
    (hloop : ws.enqueueWrites fuel' = some (.ok (), ws')) : ws'.AllQueued := by
  have hstart : s.1.Covered := by
    intro c hget e he hle
    have hzero : c = 0 := by
      rw [show CheckpointStore.get s.1.checkpoint = .ok 0 by
        show FileCheckpointStore.get s.1.checkpoint = .ok 0
        rw [FileCheckpointStore.get, hnew]] at hget
      exact (Except.ok.inj hget).symm
    have hpos := (LogOplog.seq_range s.1.oplog e he).1
    omega
  obtain ⟨hsafe, hsync, -⟩ := Runs.all_append.mp hsafe
  have hcovered : (run fuel s events).1.Covered :=
    hsafe.invariant (fun _ _ h hev => step_covered fuel h hev) hstart
  exact (hcovered.opened hsync hopen).allQueued hloop

end Workspace
/-! ## A workspace and a new server -/

section

/-- A codec that knows two queue entries and the two writes. -/
@[reducible] def sampleWorkspaceCodec : QueueCodec :=
  .ofTable (sampleQueued .pending [1, 2] ++ sampleQueued .inflight [1, 2] ++
      sampleQueued .acked [1, 2])
    [(sampleWrite "w1").withSeq 1, (sampleWrite "w2").withSeq 2]

attribute [local instance] sampleWorkspaceCodec sampleJsonCodec Formatting.sample
  Surroundings.sample Arithmetic.sample

lemma sampleWorkspace_dependable : Dependable none where
  codec := BsonCodec.ofTable_roundTrips (by decide +kernel) (by decide +kernel)
  codecSized := BsonCodec.ofTable_sized (by decide +kernel) (by decide +kernel)
  cipher := by simp [FileOplog.CryptoRoundTrips]
  cipherSized := by simp [FileOplog.CryptoSized]

/-- A new workspace, and a new server. -/
def sampleWorkspace : Workspace FileLog × Remote MemLog Unit :=
  ({ oplog := .new none (fun _ => sampleNonce) sampleWorkspace_dependable
     queue := sampleQueue [] List.nodup_nil
     checkpoint := sampleStore }, sampleRemote)

/-- The numbers in the queue when the loop of a sync command after these events ends. -/
def sampleQueuedAfter (events : List Workspace.Event) : Option (List ℕ) :=
  match (Workspace.run 3 sampleWorkspace events).1.opened with
  | .error _ => none
  | .ok ws =>
    match ws.enqueueWrites 3 with
    | some (.ok (), ws) => some ws.queue.mem.seqs
    | _ => none

lemma of_sampleQueuedAfter {events : List Workspace.Event} {seqs : List ℕ}
    (h : sampleQueuedAfter events = some seqs) :
    ∃ opened queued, (Workspace.run 3 sampleWorkspace events).1.opened = .ok opened ∧
      opened.enqueueWrites 3 = some (.ok (), queued) ∧ queued.queue.mem.seqs = seqs := by
  unfold sampleQueuedAfter at h
  split at h
  · cases h
  · next opened hopen =>
    split at h
    · next queued hloop => exact ⟨opened, queued, hopen, hloop, Option.some.inj h⟩
    · cases h

/-- Two writes and a sync command. -/
def sampleSynced : List Workspace.Event :=
  [.write (sampleWrite "w1"), .write (sampleWrite "w2"), .sync "node"]

/-- The next command finds both queued. -/
theorem all_queued_again :
    ∃ opened queued, (Workspace.run 3 sampleWorkspace sampleSynced).1.opened = .ok opened ∧
      opened.enqueueWrites 3 = some (.ok (), queued) ∧ queued.queue.mem.seqs = [1, 2] ∧
      queued.AllQueued := by
  obtain ⟨opened, queued, hopen, hloop, hseqs⟩ := of_sampleQueuedAfter
    (show sampleQueuedAfter sampleSynced = some [1, 2] by decide +kernel)
  have hzero : ∀ {c : ℕ}, (Except.ok 0 : Except RangoError ℕ) = .ok c → c = 0 :=
    fun h => (Except.ok.inj h).symm
  have hwrite : Workspace.Event.Safe sampleWorkspace (.write (sampleWrite "w1")) := by
    intro c hget
    rw [hzero hget]
    exact Nat.zero_le _
  have hwrite' : Workspace.Event.Safe
      (Workspace.step 3 sampleWorkspace (.write (sampleWrite "w1")))
      (.write (sampleWrite "w2")) := by
    intro c hget
    rw [hzero hget]
    exact Nat.zero_le _
  have hsync : Workspace.Event.Safe (Workspace.step 3
      (Workspace.step 3 sampleWorkspace (.write (sampleWrite "w1")))
      (.write (sampleWrite "w2"))) (.sync "node") := by
    intro c hget e he hle _
    rw [hzero hget] at hle
    exact absurd (LogOplog.seq_range _ e he).1 (by omega)
  -- the file of the queue has both after the first command
  have hfile : ∀ e ∈ toEntries (Workspace.run 3 sampleWorkspace sampleSynced).1.oplog,
      e.seq ∈ (Workspace.run 3 sampleWorkspace sampleSynced).1.queue.reopen.mem.seqs := by
    decide +kernel
  have hkept : ∀ s : Workspace FileLog × Remote MemLog Unit,
      (∀ e ∈ toEntries s.1.oplog, e.seq ∈ s.1.queue.reopen.mem.seqs) →
        Workspace.Event.Safe s (.sync "node") := fun _ h _ _ e he _ _ => h e he
  have hagain : Workspace.Event.Safe (Workspace.run 3 sampleWorkspace sampleSynced)
      (.sync "node") := hkept _ hfile
  have hsafe : Runs.All (Workspace.step 3) (fun s ev => Workspace.Event.Safe s ev) sampleWorkspace
      (sampleSynced ++ [.sync "node"]) :=
    Runs.all_append.mpr ⟨⟨hwrite, hwrite', hsync, trivial⟩, hagain, trivial⟩
  exact ⟨opened, queued, hopen, hloop, hseqs, Workspace.all_queued rfl hsafe hopen hloop⟩

/-- After one cycle with a new server, the stored checkpoint is `2`, and the second write is
passed over. -/
theorem second_write_not_queued :
    ∃ opened queued, (Workspace.run 3 sampleWorkspace [.write (sampleWrite "w1"), .sync "node",
        .write (sampleWrite "w2")]).1.opened = .ok opened ∧
      opened.enqueueWrites 3 = some (.ok (), queued) ∧ queued.queue.mem.seqs = [1] ∧
      (∃ e ∈ toEntries (Workspace.run 3 sampleWorkspace [.write (sampleWrite "w1"), .sync "node",
        .write (sampleWrite "w2")]).1.oplog, e.seq = 2) ∧ ¬ queued.AllQueued := by
  obtain ⟨opened, queued, hopen, hloop, hseqs⟩ := of_sampleQueuedAfter
    (show sampleQueuedAfter [.write (sampleWrite "w1"), .sync "node", .write (sampleWrite "w2")] =
      some [1] by decide +kernel)
  have hsecond : ∃ e ∈ toEntries (Workspace.run 3 sampleWorkspace [.write (sampleWrite "w1"),
      .sync "node", .write (sampleWrite "w2")]).1.oplog, e.seq = 2 := by decide +kernel
  refine ⟨opened, queued, hopen, hloop, hseqs, hsecond, fun hall => ?_⟩
  obtain ⟨e, he, hseq⟩ := hsecond
  rw [← (Workspace.opened_frame hopen).1, ← (Workspace.enqueueWrites_frame hloop).1] at he
  have hmem := hall e he
  rw [hseqs, hseq] at hmem
  simp at hmem

end
end Rango
