import Rango.Oplog.CompactionTheorems
import Rango.Sync.QueueFileTheorems

/-!
# Writes that a crash cuts short

The queue, the `.applied` file and the checkpoint are written in place: the file is emptied, then
the new bytes follow. What is found after a crash behind the first `k` of them depends on the
reader: the queue has the entries whose records are whole, the applied set is empty, and the
checkpoint is an error. `crash_leaves_old_or_new_iff` says when that is the old state or the new
one.
-/

namespace Rango

/-- A document that is cut short is refused, by the length at its front. -/
structure BsonCodec.RejectsPrefixes [BsonCodec] : Prop where
  reader_prefix : ∀ d bytes k, BsonCodec.toWriter d = .ok bytes → k < bytes.length →
    ∃ err, BsonCodec.fromReader (bytes.take k) = .error err

/-- The line of a number is read as the number, and refused when it is cut short. -/
structure JsonCodec.ReadsLine [JsonCodec] (n : ℕ) : Prop where
  whole : JsonCodec.lastSeq (FileCheckpointStore.line n) = .ok (some n)
  prefix_error : ∀ k < (FileCheckpointStore.line n).length,
    ∃ err, JsonCodec.lastSeq ((FileCheckpointStore.line n).take k) = .error err

/-! ## The queue -/

namespace QueueStateMem

/-- The map of the first entries. -/
def firsts (mem : QueueStateMem) (n : ℕ) : QueueStateMem where
  entries := mem.entries.take n
  unique := mem.unique.sublist ((List.take_sublist _ _).map _)

/-- The same entry is under every number exactly when the maps have the same entries. -/
lemma get_ext_iff {mem mem' : QueueStateMem} :
    (∀ s, mem.get s = mem'.get s) ↔ mem.entries.Perm mem'.entries := by
  refine ⟨fun h => ?_, get_eq_of_perm⟩
  rw [List.perm_ext_iff_of_nodup mem.unique.of_map mem'.unique.of_map]
  intro e
  have hmem : ∀ m : QueueStateMem, e ∈ m.entries ↔ m.get e.seq = some e := fun m =>
    ⟨fun he => get_eq_some_iff.mpr ⟨he, rfl⟩, fun he => (get_eq_some_iff.mp he).1⟩
  rw [hmem, hmem, h]

lemma firsts_get_iff {mem : QueueStateMem} {n : ℕ} (hn : n ≤ mem.entries.length) :
    (∀ s, (mem.firsts n).get s = mem.get s) ↔ n = mem.entries.length := by
  rw [get_ext_iff]
  constructor
  · intro h
    have hlength := h.length_eq
    rw [firsts, List.length_take] at hlength
    omega
  · rintro rfl
    show (mem.entries.take mem.entries.length).Perm mem.entries
    rw [List.take_length]

end QueueStateMem

namespace FileSyncQueue

variable [QueueCodec] {q : FileSyncQueue} {bytes : Bytes}

lemma wholeRecords_le (h : Readable q.crypto) {nonces : ℕ → Nonce} {es : List SyncQueueEntry}
    (hloop : writeLoop q.crypto nonces es = (bytes, .ok ())) (k : ℕ) :
    wholeRecords q.crypto nonces k es ≤ es.length := by
  obtain ⟨ps, rfl, hlen, hps⟩ := writeLoop_ok h hloop
  rw [wholeRecords, hloop, payloads_all hlen, ← hps.length_eq]
  exact Framing.whole_le k ps

/-- What a reopen finds after a crash within `write_all`. -/
lemma reopen_writeAll_get (h : Readable q.crypto)
    (hloop : writeLoop q.crypto (q.turns 0).nonces q.mem.entries = (bytes, .ok ())) {k : ℕ}
    {err : String} (hfault : (q.turns 0).fault = some (.write k err)) (s : ℕ) :
    q.writeAll.2.reopen.mem.get s =
      (q.mem.firsts (wholeRecords q.crypto (q.turns 0).nonces k q.mem.entries)).get s := by
  have hfile : q.writeAll.2 = { q with file := some (bytes.take k), turns := q.nextTurns } := by
    unfold writeAll
    rw [hloop, hfault]
  rw [hfile]
  exact readAll_take h hloop q.mem.unique k _ s

/-- A crash within `write_all` leaves the old entries or the new ones exactly when it comes after
the last byte, or the entries of the whole records are the old ones. -/
theorem crash_iff (h : Readable q.crypto)
    (hloop : writeLoop q.crypto (q.turns 0).nonces q.mem.entries = (bytes, .ok ())) {k : ℕ}
    {err : String} (hfault : (q.turns 0).fault = some (.write k err)) (old : QueueStateMem) :
    (∀ s, q.writeAll.2.reopen.mem.get s = old.get s) ∨
        (∀ s, q.writeAll.2.reopen.mem.get s = q.mem.get s) ↔
      bytes.length ≤ k ∨ (q.mem.entries.take
        (wholeRecords q.crypto (q.turns 0).nonces k q.mem.entries)).Perm old.entries := by
  simp only [reopen_writeAll_get h hloop hfault]
  rw [QueueStateMem.firsts_get_iff (wholeRecords_le h hloop k),
    wholeRecords_eq_length_iff h hloop, QueueStateMem.get_ext_iff, or_comm]
  rfl

end FileSyncQueue

/-! ## The applied set -/

namespace FileOplog

variable [BsonCodec] {w : FileOplog} {bytes : Bytes}

/-- Without a cipher, no log keeps the oplog from opening. -/
lemma reopen_of_readApplied {applied : List ℕ} (hcrypto : w.crypto = none)
    (happ : readApplied none w.appliedFile = .ok applied) :
    ∃ w', w.reopen = .ok w' ∧ w'.applied = applied := by
  have hloop : ∀ ps latest, ∃ n, latestLoop none latest ps = .ok n := by
    intro ps
    induction ps with
    | nil => exact fun latest => ⟨latest, rfl⟩
    | cons p ps ih =>
      intro latest
      simp only [latestLoop, openRecord]
      cases parseEntry p with
      | none => exact ih latest
      | some entry => exact ih entry.seq
  obtain ⟨n, hn⟩ := hloop (Framing.payloads w.log) 0
  have hlatest : readLatestSeq none w.log = .ok n := hn
  rw [reopen, newWithCrypto, hcrypto, Option.getD_some, hlatest, happ]
  exact ⟨_, rfl, rfl⟩

/-- An applied set that was cut short is read as the empty one. -/
lemma readApplied_take (hp : BsonCodec.RejectsPrefixes)
    (hw : BsonCodec.toWriter (appliedDocument w.applied) = .ok bytes) {k : ℕ}
    (hk : k < bytes.length) : readApplied none (some (bytes.take k)) = .ok [] := by
  obtain ⟨err, herr⟩ := hp.reader_prefix _ _ k hw hk
  simp only [readApplied, openRecord, herr]
  split_ifs <;> rfl

/-- A crash within `write_applied` leaves the old set or the new one exactly when it comes after
the last byte, or one of them is empty. -/
theorem crash_iff (hb : BsonCodec.RoundTrips) (hs : BsonCodec.Sized)
    (hp : BsonCodec.RejectsPrefixes) (hcrypto : w.crypto = none) (hl : ∀ v ∈ w.applied, v < 2 ^ 64)
    (hw : BsonCodec.toWriter (appliedDocument w.applied) = .ok bytes) (nonce : Nonce) (k : ℕ)
    (err : String) (old : List ℕ) :
    (∃ w', (w.writeApplied nonce (some ⟨k, err⟩)).2.reopen = .ok w' ∧
        ((∀ v, v ∈ w'.applied ↔ v ∈ old) ∨ ∀ v, v ∈ w'.applied ↔ v ∈ w.applied)) ↔
      bytes.length ≤ k ∨ old = [] ∨ w.applied = [] := by
  set torn : FileOplog := { w with appliedFile := some (bytes.take k) } with htorn
  have hplain : sealRecord w.crypto nonce bytes = bytes := by
    rw [hcrypto]
    rfl
  have hfile : (w.writeApplied nonce (some ⟨k, err⟩)).2 = torn := by
    rw [writeApplied, hw]
    dsimp only
    rw [hplain]
  have hc : CryptoRoundTrips none := by simp [CryptoRoundTrips]
  have hempty : ∀ l : List ℕ, (∀ v, v ∈ ([] : List ℕ) ↔ v ∈ l) ↔ l = [] := by
    intro l
    simp [List.eq_nil_iff_forall_not_mem]
  rw [hfile]
  by_cases hk : bytes.length ≤ k
  · have hread : readApplied none torn.appliedFile = .ok w.applied := by
      rw [htorn, List.take_of_length_le hk]
      exact readApplied_sealRecord hb hs hc nonce hl hw
    obtain ⟨w', hopen, happ⟩ := reopen_of_readApplied (w := torn) hcrypto hread
    exact iff_of_true ⟨w', hopen, .inr fun v => by rw [happ]⟩ (.inl hk)
  · obtain ⟨w', hopen, happ⟩ := reopen_of_readApplied (w := torn) hcrypto
      (readApplied_take hp hw (not_le.mp hk))
    rw [or_iff_right hk]
    constructor
    · rintro ⟨w'', hopen', hsame⟩
      obtain rfl : w' = w'' := Except.ok.inj (hopen.symm.trans hopen')
      rwa [happ, hempty, hempty] at hsame
    · intro hnil
      refine ⟨w', hopen, ?_⟩
      rwa [happ, hempty, hempty]

end FileOplog

/-! ## The checkpoint -/

namespace FileCheckpointStore

variable [JsonCodec] {s : FileCheckpointStore} {buf : Bytes}

/-- Without a cipher, the bytes of the file are read as they are. -/
lemma get_eq_ok {seq : Option ℕ} (hcrypto : s.crypto = none) (hfile : s.file = some buf)
    (hseq : JsonCodec.lastSeq buf = .ok seq) : s.get = .ok (seq.getD 0) := by
  simp only [get, hfile, hcrypto, FileOplog.openRecord, hseq]

lemma get_eq_error {err : String} (hcrypto : s.crypto = none) (hfile : s.file = some buf)
    (hseq : JsonCodec.lastSeq buf = .error err) : s.get = .error (.storage err) := by
  simp only [get, hfile, hcrypto, FileOplog.openRecord, hseq]

/-- A crash within `set` leaves the old number or the new one exactly when it comes after the last
byte. -/
theorem crash_iff {n : ℕ} (hn : JsonCodec.ReadsLine n) (hcrypto : s.crypto = none) {k : ℕ}
    {err : String} (hfault : (s.turns 0).fault = some (.write k err)) (old : ℕ) :
    (s.set n).2.get = .ok old ∨ (s.set n).2.get = .ok n ↔ (line n).length ≤ k := by
  have hfile : (s.set n).2 = { s with file := some ((line n).take k), turns := s.nextTurns } := by
    rw [set, hfault, hcrypto]
    rfl
  have hcut : (s.set n).2.file = some ((line n).take k) := by rw [hfile]
  have hplain : (s.set n).2.crypto = none := by rw [hfile, hcrypto]
  by_cases hk : (line n).length ≤ k
  · rw [List.take_of_length_le hk] at hcut
    exact iff_of_true (.inr (get_eq_ok hplain hcut hn.whole)) hk
  · obtain ⟨err', herr⟩ := hn.prefix_error k (not_le.mp hk)
    rw [get_eq_error hplain hcut herr]
    exact iff_of_false (by simp) hk

end FileCheckpointStore

/-! ## The three stores -/

/-- **Old or new.** A write of a queue, of an applied set and of a checkpoint, without encryption,
each stopped by a crash behind the first bytes: what a reopen finds is the old state or the new
one, exactly when all bytes were written, or a file cut there happens to read as the old state. For
the queue that is so when the entries in the whole records are the old ones, for the applied set
when one of the two sets is empty, for the checkpoint never. -/
theorem crash_leaves_old_or_new_iff [QueueCodec] [JsonCodec] (hread : FileSyncQueue.Readable none)
    (hrejects : BsonCodec.RejectsPrefixes)
    {q : FileSyncQueue} (hq : q.crypto = none) {queueBytes : Bytes}
    (hloop : FileSyncQueue.writeLoop none (q.turns 0).nonces q.mem.entries = (queueBytes, .ok ()))
    {queueCut : ℕ} {queueErr : String}
    (hqueue : (q.turns 0).fault = some (.write queueCut queueErr)) (oldQueue : QueueStateMem)
    {w : FileOplog} (hw : w.crypto = none) (hsmall : ∀ v ∈ w.applied, v < 2 ^ 64)
    {appliedBytes : Bytes}
    (hwrite : BsonCodec.toWriter (FileOplog.appliedDocument w.applied) = .ok appliedBytes)
    (nonce : Nonce) (appliedCut : ℕ) (appliedErr : String) (oldApplied : List ℕ)
    {s : FileCheckpointStore} (hs : s.crypto = none) {checkpoint : ℕ}
    (hline : JsonCodec.ReadsLine checkpoint) {checkpointCut : ℕ} {checkpointErr : String}
    (hset : (s.turns 0).fault = some (.write checkpointCut checkpointErr)) (oldCheckpoint : ℕ) :
    ((∀ n, q.writeAll.2.reopen.mem.get n = oldQueue.get n) ∨
        (∀ n, q.writeAll.2.reopen.mem.get n = q.mem.get n) ↔
      queueBytes.length ≤ queueCut ∨ (q.mem.entries.take (FileSyncQueue.wholeRecords none
        (q.turns 0).nonces queueCut q.mem.entries)).Perm oldQueue.entries) ∧
    ((∃ w', (w.writeApplied nonce (some ⟨appliedCut, appliedErr⟩)).2.reopen = .ok w' ∧
        ((∀ v, v ∈ w'.applied ↔ v ∈ oldApplied) ∨ ∀ v, v ∈ w'.applied ↔ v ∈ w.applied)) ↔
      appliedBytes.length ≤ appliedCut ∨ oldApplied = [] ∨ w.applied = []) ∧
    ((s.set checkpoint).2.get = .ok oldCheckpoint ∨ (s.set checkpoint).2.get = .ok checkpoint ↔
      (FileCheckpointStore.line checkpoint).length ≤ checkpointCut) := by
  refine ⟨?_, ?_, ?_⟩
  · have h := FileSyncQueue.crash_iff (hq ▸ hread) (hq ▸ hloop) hqueue oldQueue
    rwa [hq] at h
  · exact FileOplog.crash_iff hread.codec hread.sized hrejects hw hsmall hwrite nonce appliedCut
      appliedErr oldApplied
  · exact FileCheckpointStore.crash_iff hline hs hset oldCheckpoint

/-! ## A worked example -/

/-- What no row of a table has for its image is not decoded. -/
lemma BsonCodec.tableDecode_eq_error {α β : Type} [DecidableEq β] {rows : List α}
    {image : α → Option β} {b : β} (h : ∀ a ∈ rows, image a ≠ some b) :
    ∃ err, tableDecode rows image b = .error err := by
  have hnone : (rows.find? fun a => image a = some b) = none := by
    rw [List.find?_eq_none]
    exact fun a ha hdec => h a ha (of_decide_eq_true hdec)
  exact ⟨"not in the table", by rw [tableDecode, hnone]⟩

/-- The documents of two entries of a queue and of an applied set. -/
def sampleCrashDocs : List Document :=
  [QueueCodec.entryDocument ⟨1, .inflight, 0, none⟩,
    QueueCodec.entryDocument ⟨2, .inflight, 0, none⟩, FileOplog.appliedDocument [1, 2]]

/-- A codec that knows two entries of a queue and one applied set. -/
@[reducible] def sampleCrashCodec : QueueCodec where
  toBsonCodec := .ofTable [] sampleCrashDocs
  serializeQueueEntry := BsonCodec.tableEncode [⟨1, .inflight, 0, none⟩, ⟨2, .inflight, 0, none⟩]
    fun e => some (QueueCodec.entryDocument e)
  deserializeQueueEntry := BsonCodec.tableDecode [⟨1, .inflight, 0, none⟩, ⟨2, .inflight, 0, none⟩]
    fun e => some (QueueCodec.entryDocument e)

/-- A codec that knows the line of one number. -/
@[reducible] def sampleLineCodec : JsonCodec := .ofTable [2]

section
attribute [local instance] sampleCrashCodec sampleLineCodec

lemma sampleCrashCodec_readable : FileSyncQueue.Readable none where
  codec := BsonCodec.ofTable_roundTrips (by decide +kernel) (by decide)
  entries := ⟨fun _ _ h => BsonCodec.tableDecode_of_tableEncode (by decide +kernel) h⟩
  sized := BsonCodec.ofTable_sized (by decide +kernel) (by decide)
  opens _ h := nomatch h
  cipherSized _ h := nomatch h

lemma sampleCrashCodec_rejectsPrefixes : BsonCodec.RejectsPrefixes where
  reader_prefix d bytes k hwrite hk := by
    obtain ⟨hd, hbytes⟩ := BsonCodec.of_tableEncode hwrite
    have hrows : ∀ d ∈ sampleCrashDocs, ∀ d' ∈ sampleCrashDocs, ∀ bytes ∈ BsonCodec.layout d,
        ∀ k < bytes.length, BsonCodec.layout d' ≠ some (bytes.take k) := by decide +kernel
    exact BsonCodec.tableDecode_eq_error fun d' hd' => hrows d hd d' hd' bytes hbytes k hk

lemma sampleLineCodec_readsLine : JsonCodec.ReadsLine 2 where
  whole := by decide +kernel
  prefix_error k hk := by
    have hrows : ∀ k < (FileCheckpointStore.line 2).length,
        (some (FileCheckpointStore.line 2) : Option Bytes) ≠
          some ((FileCheckpointStore.line 2).take k) := by decide +kernel
    refine BsonCodec.tableDecode_eq_error fun n hn => ?_
    obtain rfl := List.mem_singleton.mp hn
    exact hrows k hk

/-- A queue with one entry in this state, whose next write stops before its first byte. -/
def sampleCrashQueue (state : QueueState) : FileSyncQueue where
  file := none
  mem := ⟨[⟨1, state, 0, none⟩], List.nodup_singleton _⟩
  crypto := none
  turns _ := ⟨.inserted, fun _ => sampleNonce, some (.write 0 "crash")⟩

/-- An oplog with two applied numbers. -/
def sampleCrashOplog : FileOplog := ⟨[], none, 2, [1, 2], none⟩

/-- A checkpoint whose next write stops before its first byte. -/
def sampleCrashStore : FileCheckpointStore :=
  ⟨none, none, fun _ => ⟨sampleNonce, some (.write 0 "crash")⟩⟩

/-- The bytes that the queue is to write. -/
def sampleQueueBytes : Bytes :=
  (FileSyncQueue.writeLoop none ((sampleCrashQueue .inflight).turns 0).nonces
    (sampleCrashQueue .inflight).mem.entries).1

/-- The bytes that the oplog is to write. -/
def sampleAppliedBytes : Bytes := ((BsonCodec.layout (FileOplog.appliedDocument [1, 2])).getD [])

lemma sampleOplog_writes : BsonCodec.toWriter
    (FileOplog.appliedDocument sampleCrashOplog.applied) = .ok sampleAppliedBytes := by
  decide +kernel

/-- A queue to which a second entry came, whose next write stops behind this many bytes. -/
def sampleGrownQueue (cut : ℕ) : FileSyncQueue where
  file := none
  mem := ⟨[⟨1, .inflight, 0, none⟩, ⟨2, .inflight, 0, none⟩], by decide⟩
  crypto := none
  turns _ := ⟨.inserted, fun _ => sampleNonce, some (.write cut "crash")⟩

/-- The bytes that it is to write. -/
def sampleGrownBytes (cut : ℕ) : Bytes :=
  (FileSyncQueue.writeLoop none ((sampleGrownQueue cut).turns 0).nonces
    (sampleGrownQueue cut).mem.entries).1

/-- Behind the record of the first entry. -/
def sampleCut : ℕ := sampleQueueBytes.length

/-- A checkpoint whose next write stops behind its first byte. -/
def sampleCutStore : FileCheckpointStore :=
  ⟨none, none, fun _ => ⟨sampleNonce, some (.write 1 "crash")⟩⟩

/-- For a write of the queue that stops behind the first of its two records, which leaves the
queue without the second entry, and writes of the other two files that stop behind five bytes and
one. -/
theorem crash_leaves_old_or_new_iff_second :
    ((∀ n, (sampleGrownQueue sampleCut).writeAll.2.reopen.mem.get n =
          (sampleCrashQueue .inflight).mem.get n) ∨
        (∀ n, (sampleGrownQueue sampleCut).writeAll.2.reopen.mem.get n =
          (sampleGrownQueue sampleCut).mem.get n)) ∧
    ((∃ w', (sampleCrashOplog.writeApplied ⟨List.replicate 12 0, rfl⟩
          (some ⟨5, "crash"⟩)).2.reopen = .ok w' ∧
        ((∀ v, v ∈ w'.applied ↔ v ∈ [1]) ∨ ∀ v, v ∈ w'.applied ↔ v ∈ sampleCrashOplog.applied)) ↔
      sampleAppliedBytes.length ≤ 5 ∨ ([1] : List ℕ) = [] ∨ sampleCrashOplog.applied = []) ∧
    ((sampleCutStore.set 2).2.get = .ok 1 ∨ (sampleCutStore.set 2).2.get = .ok 2 ↔
      (FileCheckpointStore.line 2).length ≤ 1) := by
  have hwrites : FileSyncQueue.writeLoop none ((sampleGrownQueue sampleCut).turns 0).nonces
      (sampleGrownQueue sampleCut).mem.entries = (sampleGrownBytes sampleCut, .ok ()) :=
    Prod.ext rfl (by decide +kernel)
  obtain ⟨hqueue, happlied, hcheckpoint⟩ := crash_leaves_old_or_new_iff (s := sampleCutStore)
    sampleCrashCodec_readable sampleCrashCodec_rejectsPrefixes rfl hwrites rfl
    (sampleCrashQueue .inflight).mem rfl (by decide)
    sampleOplog_writes _ 5 "crash" [1] rfl sampleLineCodec_readsLine rfl 1
  exact ⟨hqueue.mpr (Or.inr (by decide +kernel)), happlied, hcheckpoint⟩

/-- A crash before the first byte: the queue and the applied set are empty, the checkpoint is an
error. -/
theorem crash_empties_all_three :
    ¬ ((∀ n, (sampleCrashQueue .inflight).writeAll.2.reopen.mem.get n =
          (sampleCrashQueue .pending).mem.get n) ∨
        (∀ n, (sampleCrashQueue .inflight).writeAll.2.reopen.mem.get n =
          (sampleCrashQueue .inflight).mem.get n)) ∧
    ¬ (∃ w', (sampleCrashOplog.writeApplied ⟨List.replicate 12 0, rfl⟩
          (some ⟨0, "crash"⟩)).2.reopen = .ok w' ∧
        ((∀ v, v ∈ w'.applied ↔ v ∈ [1]) ∨ ∀ v, v ∈ w'.applied ↔ v ∈ sampleCrashOplog.applied)) ∧
    ¬ ((sampleCrashStore.set 2).2.get = .ok 1 ∨ (sampleCrashStore.set 2).2.get = .ok 2) := by
  refine ⟨?_, ?_, ?_⟩
  · have hempty : (sampleCrashQueue .inflight).writeAll.2.reopen.mem.get 1 = none := by
      decide +kernel
    rintro (h | h)
    · exact absurd (hempty.symm.trans (h 1)) (by decide)
    · exact absurd (hempty.symm.trans (h 1)) (by decide)
  · rintro ⟨w', hopen, hsame⟩
    have hempty : w'.applied = [] := by
      rw [← Except.ok.inj hopen]
    rw [hempty] at hsame
    rcases hsame with h | h
    · exact absurd ((h 1).mpr (by decide)) (by decide)
    · exact absurd ((h 1).mpr (by decide)) (by decide)
  · decide +kernel

end
end Rango
