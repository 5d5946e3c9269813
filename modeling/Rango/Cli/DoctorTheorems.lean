import Rango.Cli.Doctor
import Rango.Storage.Memory
import Rango.Sync.DispatchTheorems

/-!
# What the doctor does to the queue

The doctor counts the entries of the queue in a batch that it takes, as the scheduler does: they
are `Inflight` from then on, in the file too. `doctor_undisturbed_iff` says when the queue is as it
was before.
-/

namespace Rango

namespace FileSyncQueue

variable [QueueCodec]

/-- No later handle tells the one file from the other: it has the same numbers in the same states,
and in every run of calls it hands out the same batches. -/
def Undisturbed (file file' : Option Bytes) : Prop :=
  ∀ crypto turns,
    (∀ s, (newWithCrypto file' crypto turns).mem.stateOf s =
      (newWithCrypto file crypto turns).mem.stateOf s) ∧
    ∀ steps, ((QueueRun.start file' crypto turns).run steps).batches =
      ((QueueRun.start file crypto turns).run steps).batches

lemma undisturbed_rfl (file : Option Bytes) : Undisturbed file file := fun _ _ =>
  ⟨fun _ => rfl, fun _ => rfl⟩

variable {q : FileSyncQueue} {limit : ℕ}

omit [QueueCodec] in
/-- A batch has entries exactly when one is `Pending`. -/
lemma pendingBatch_eq_nil_iff (hlimit : 0 < limit) :
    q.pendingBatch limit = [] ↔ ∀ e ∈ q.mem.entries, e.state ≠ .pending := by
  rw [pendingBatch, List.take_eq_nil_iff, or_iff_right (by omega), List.filter_eq_nil_iff]
  simp

/-- A batch that was taken and written can be told from the file, however much of it was
written: its entries are no longer `Pending`. -/
lemma not_undisturbed_of_taken (h : Readable q.crypto) (hq : q.Synced) {s : ℕ}
    (hs : s ∈ q.batchSeqs limit) {mem : QueueStateMem}
    (hleft : (q.nextBatch limit).2 = (q.withMem mem).writeAll.2)
    (hcreate : ¬ ∃ err, (q.turns 0).fault = some (.create err)) :
    ¬ Undisturbed q.file (q.nextBatch limit).2.file := by
  intro hsame
  have hafter : mem.stateOf s = some .inflight := by
    have hstate := (nextBatch_mem limit q).2 s
    rwa [if_pos hs, hleft, writeAll_mem] at hstate
  -- a handle on the new file still has the number as it was
  have hnew := (hsame q.crypto q.turns).1 s
  have hold : (newWithCrypto q.file q.crypto q.turns).mem.stateOf s = some .pending := by
    rw [← stateOf_of_mem_batchSeqs hs]
    exact congrArg (Option.map SyncQueueEntry.state) (hq _ s)
  rw [hold, hleft] at hnew
  obtain ⟨e, he, hpending⟩ := Option.map_eq_some_iff.mp hnew
  rcases (q.withMem mem).writeAll_file with ⟨hfault, -⟩ | ⟨-, k, hfile⟩
  · exact hcreate hfault
  · rw [hfile] at he
    -- but all that can be read there was in the map that was written
    obtain ⟨hmem, hseq⟩ := mem_of_readAll_take h rfl mem.unique he
    rw [QueueStateMem.stateOf, QueueStateMem.get_eq_some_iff.mpr ⟨hmem, hseq⟩, Option.map_some,
      hpending] at hafter
    exact absurd hafter (by decide)

/-- Taking a batch leaves the file as it was exactly when nothing is `Pending`, or the file could
not be created. -/
theorem nextBatch_undisturbed_iff (h : Readable q.crypto) (hq : q.Synced) (hlimit : 0 < limit) :
    Undisturbed q.file (q.nextBatch limit).2.file ↔
      (∀ e ∈ q.mem.entries, e.state ≠ .pending) ∨
        ∃ err, (q.turns 0).fault = some (.create err) := by
  rw [← pendingBatch_eq_nil_iff hlimit]
  rcases nextBatch_cases limit q with ⟨hnil, hleft⟩ | ⟨hne, mem, hleft, -⟩
  · rw [hleft]
    exact iff_of_true (undisturbed_rfl _) (.inl hnil)
  · rw [or_iff_right hne]
    constructor
    · intro hsame
      by_contra hcreate
      obtain ⟨e, he⟩ := List.exists_mem_of_ne_nil _ hne
      exact not_undisturbed_of_taken h hq (List.mem_map_of_mem he) hleft hcreate hsame
    · rintro ⟨err, hfault⟩
      have hfile : (q.nextBatch limit).2.file = q.file := by
        rcases (q.withMem mem).writeAll_file with ⟨-, hfile⟩ | ⟨hcreate, -⟩
        · rw [hleft, hfile]
          rfl
        · exact absurd ⟨err, hfault⟩ hcreate
      rw [hfile]
      exact undisturbed_rfl _

end FileSyncQueue

/-! ## The command -/

section
variable {σ : Type} [QueueCodec] [JsonCodec] {crypto : Option CryptoEngine} {t : DoctorTurns}
  {ws : WorkspaceFiles σ}

omit [JsonCodec] in
/-- The count of `Pending` entries is always printed as zero: the batch is taken before. -/
lemma queueCheck_counts {report : DoctorReport} {counts : QueueCounts}
    (h : (queueCheck crypto t ws report).2.1 = some counts) :
    counts.pending = 0 ∧ counts.failed = 0 := by
  have hinflight : ∀ e ∈ ((FileSyncQueue.newWithCrypto ws.queue crypto t.queue).nextBatch
      1000).1.toOption.getD [], e.state = .inflight := by
    cases hbatch : ((FileSyncQueue.newWithCrypto ws.queue crypto t.queue).nextBatch 1000).1 with
    | error err => exact nofun
    | ok batch =>
      intro e he
      rw [FileSyncQueue.nextBatch_eq hbatch] at he
      obtain ⟨old, -, rfl⟩ := List.mem_map.mp he
      rfl
  unfold queueCheck at h
  cases hqueue : ws.queue with
  | none => rw [hqueue] at h; cases h
  | some file =>
    rw [hqueue] at h hinflight
    cases hopen : t.queueOpen with
    | some err => rw [hopen] at h; cases h
    | none =>
      rw [hopen] at h
      obtain rfl := Option.some.inj h
      constructor
      · exact List.countP_eq_zero.mpr fun e he => by simp [hinflight e he]
      · exact List.countP_eq_zero.mpr fun e he => by simp [hinflight e he]

lemma syncCheck_queue (report : DoctorReport) :
    (syncCheck crypto t ws report).files.queue =
      if t.queueOpen = none then
        ((FileSyncQueue.newWithCrypto ws.queue crypto t.queue).nextBatch 1000).2.file
      else ws.queue := by
  show (queueCheck crypto t ws (oplogCheck crypto ws report)).2.2 = _
  unfold queueCheck
  cases ws.queue with
  | none =>
    -- there is nothing in the map of a missing file
    have hnil : (FileSyncQueue.newWithCrypto none crypto t.queue).pendingBatch 1000 = [] := rfl
    rcases FileSyncQueue.nextBatch_cases 1000 (.newWithCrypto none crypto t.queue) with
      ⟨-, hleft⟩ | ⟨hne, -⟩
    · rw [hleft]
      exact (ite_self _).symm
    · exact absurd hnil hne
  | some file =>
    cases t.queueOpen with
    | none => rfl
    | some err => rfl

variable [Formatting] [StorageEngine σ] [MutationHasher] [Arithmetic] [BsonTraits] [SliceSort]
  [KeyDerivation] {path : String} {passphrase : Option String}

/-- No operation fails on the engine, if one can be opened. -/
def EngineChecked (path : String) (t : DoctorTurns) (ws : WorkspaceFiles σ)
    (crypto : Option CryptoEngine) : Prop :=
  ∀ e, openPersistentClient crypto t ws = .ok e →
    ∃ report, (clientChecks t.clocks (.opening path ws.directory) e).1 = .ok report

/-- The doctor takes a batch of the queue, with this cipher: the passphrase fits, no operation on
the engine fails, and the queue can be opened. -/
structure TakesBatch (path : String) (passphrase : Option String) (t : DoctorTurns)
    (ws : WorkspaceFiles σ) (crypto : Option CryptoEngine) : Prop where
  cipher : loadCrypto ws.salt passphrase = .ok crypto
  checked : EngineChecked path t ws crypto
  opens : t.queueOpen = none

/-- The doctor comes to the sync files with the queue as it was, or it ends before and leaves the
queue. -/
lemma runDoctor_cases (hcipher : loadCrypto ws.salt passphrase = .ok crypto) :
    EngineChecked path t ws crypto ∧ (∃ ws' report, ws'.queue = ws.queue ∧
        runDoctor path passphrase t ws = syncCheck crypto t ws' report) ∨
      ¬ EngineChecked path t ws crypto ∧
        (runDoctor path passphrase t ws).files.queue = ws.queue := by
  simp only [runDoctor, hcipher]
  cases hclient : openPersistentClient crypto t ws with
  | error err =>
    exact .inl ⟨fun e he => (nomatch hclient.symm.trans he), ws.afterFailedOpen, _, rfl, rfl⟩
  | ok e =>
    dsimp only
    rcases hchecks : clientChecks t.clocks (.opening path ws.directory) e with ⟨result, e'⟩
    cases result with
    | error fault =>
      refine .inr ⟨fun h => ?_, rfl⟩
      obtain ⟨report, hreport⟩ := h e hclient
      rw [hchecks] at hreport
      cases hreport
    | ok report =>
      refine .inl ⟨fun e₁ he₁ => ⟨report, ?_⟩, ws.afterClient e', report, rfl, rfl⟩
      obtain rfl : e = e₁ := Except.ok.inj (hclient.symm.trans he₁)
      rw [hchecks]

/-- The queue is as `next_batch` leaves it, or untouched. -/
lemma runDoctor_queue (path : String) (passphrase : Option String) (t : DoctorTurns)
    (ws : WorkspaceFiles σ) :
    (∃ crypto, TakesBatch path passphrase t ws crypto ∧
        (runDoctor path passphrase t ws).files.queue =
          ((FileSyncQueue.newWithCrypto ws.queue crypto t.queue).nextBatch 1000).2.file) ∨
      (∀ crypto, ¬ TakesBatch path passphrase t ws crypto) ∧
        (runDoctor path passphrase t ws).files.queue = ws.queue := by
  cases hcipher : loadCrypto ws.salt passphrase with
  | error err =>
    refine .inr ⟨fun crypto h => (nomatch hcipher.symm.trans h.cipher), ?_⟩
    simp only [runDoctor, hcipher]
  | ok crypto =>
    have hunique : ∀ crypto', TakesBatch path passphrase t ws crypto' → crypto' = crypto :=
      fun crypto' h => Except.ok.inj (h.cipher.symm.trans hcipher)
    rcases runDoctor_cases hcipher with
      ⟨hchecked, ws', report, hqueue, hrun⟩ | ⟨hchecked, hqueue⟩
    · rw [hrun, syncCheck_queue, hqueue]
      by_cases hopen : t.queueOpen = none
      · exact .inl ⟨crypto, ⟨hcipher, hchecked, hopen⟩, if_pos hopen⟩
      · exact .inr ⟨fun crypto' h => hopen h.opens, if_neg hopen⟩
    · exact .inr ⟨fun crypto' h => hchecked (hunique crypto' h ▸ h.checked), hqueue⟩

/-- **A doctor that takes work.** Running the doctor leaves the sync queue such that every later
handle finds its entries in the states that they had, and hands out the batches that it would
have, exactly when the doctor does not take a batch, no entry that it finds is `Pending`, or the
file cannot be created again. -/
theorem doctor_undisturbed_iff (hread : ∀ crypto, loadCrypto ws.salt passphrase = .ok crypto →
      FileSyncQueue.Readable crypto) :
    FileSyncQueue.Undisturbed ws.queue (runDoctor path passphrase t ws).files.queue ↔
      ∀ crypto, TakesBatch path passphrase t ws crypto →
        (∀ e ∈ (FileSyncQueue.readAll ws.queue crypto (t.queue 0).order).entries,
          e.state ≠ .pending) ∨
        ∃ err, (t.queue 1).fault = some (.create err) := by
  rcases runDoctor_queue path passphrase t ws with
    ⟨crypto, htakes, hfile⟩ | ⟨hnot, hfile⟩
  · have hlimit : 0 < 1000 := by decide
    have hiff := FileSyncQueue.nextBatch_undisturbed_iff
      (q := .newWithCrypto ws.queue crypto t.queue) (hread crypto htakes.cipher)
      (FileSyncQueue.newWithCrypto_synced _ _ _) hlimit
    rw [hfile]
    refine hiff.trans ⟨fun h crypto' htakes' => ?_, fun h => h crypto htakes⟩
    obtain rfl : crypto' = crypto := Except.ok.inj (htakes'.cipher.symm.trans htakes.cipher)
    exact h
  · rw [hfile]
    exact iff_of_true (FileSyncQueue.undisturbed_rfl _) fun crypto h => absurd h (hnot crypto)

end

/-! ## A worked example -/

attribute [local instance] sampleEntryCodec Formatting.sample MutationHasher.sample
  Arithmetic.sample BsonTraits.sample SliceSort.sample

/-- A codec that reads no checkpoint. -/
local instance : JsonCodec := .ofTable []

/-- A key derivation for a workspace without encryption. -/
local instance : KeyDerivation := ⟨fun _ _ => ⟨fun _ bytes => bytes, fun _ bytes => .ok bytes⟩⟩

/-- A workspace whose queue has one `Pending` entry. Its database is open in another process. -/
def sampleLockedWorkspace : WorkspaceFiles MemoryStorage where
  directory := true
  salt := none
  config := .default
  storage := .error (.storage "Database already open. Cannot acquire lock.")
  oplog := none
  applied := none
  queue := some (FileSyncQueue.writeLoop none (sampleTurns 0).nonces [⟨1, .pending, 0, none⟩]).1
  checkpoint := none

/-- Clocks that stand still, and files that can be written. -/
def sampleDoctorTurns : DoctorTurns where
  clocks _ := ⟨[], 0, 0, 0, 0, 0, 0, 0⟩
  oplog _ := ⟨sampleNonce, none⟩
  queue := sampleTurns
  queueOpen := none
  checkpoint _ := ⟨sampleNonce, none⟩

/-- The workspace with an entry in each of the other states. -/
def sampleBusyWorkspace : WorkspaceFiles MemoryStorage :=
  { sampleLockedWorkspace with
    queue := some (FileSyncQueue.writeLoop none (sampleTurns 0).nonces
      [⟨1, .inflight, 0, none⟩, ⟨2, .acked, 0, none⟩, ⟨3, .failed, 1, some "timeout"⟩]).1 }

/-- None of its three entries is `Pending`, and the doctor disturbs none. -/
theorem doctor_undisturbed_iff_sample :
    (FileSyncQueue.readAll sampleBusyWorkspace.queue none .inserted).entries.length = 3 ∧
      FileSyncQueue.Undisturbed sampleBusyWorkspace.queue
        (runDoctor "ws" none sampleDoctorTurns sampleBusyWorkspace).files.queue := by
  refine ⟨by decide +kernel, (doctor_undisturbed_iff fun _ h =>
    Except.ok.inj h ▸ sampleEntryCodec_readable).mpr fun crypto htakes => ?_⟩
  obtain rfl : none = crypto := Except.ok.inj htakes.cipher
  left
  decide +kernel

/-- The doctor takes the entry: it was `Pending` and is `Inflight`, and the batch that would have
had it has nothing. -/
theorem doctor_takes_pending :
    let before := FileSyncQueue.newWithCrypto sampleLockedWorkspace.queue none sampleTurns
    let after := FileSyncQueue.newWithCrypto
      (runDoctor "ws" none sampleDoctorTurns sampleLockedWorkspace).files.queue none sampleTurns
    before.mem.stateOf 1 = some .pending ∧ after.mem.stateOf 1 = some .inflight ∧
      (before.nextBatch 5).1 = .ok [⟨1, .inflight, 0, none⟩] ∧ (after.nextBatch 5).1 = .ok [] := by
  decide +kernel

end Rango
