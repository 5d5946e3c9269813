import Rango.Oplog.FileTheorems
import Rango.Sync.QueueTheorems

/-!
# The file of a queue

What `read_all` finds in a file, as a map: which entry is under a number does not depend on the
order in which the map iterates. `readAll_take` says it of a file that `write_all` wrote and that
was cut short anywhere; the whole file gives the map back (`Synced`).
-/

namespace Rango

/-- What was encoded is decoded again. -/
structure QueueCodec.RoundTrips [QueueCodec] : Prop where
  deserialize_serialize : ∀ e d, QueueCodec.serializeQueueEntry e = .ok d →
    QueueCodec.deserializeQueueEntry d = .ok e

/-! ## The map -/

namespace QueueStateMem

variable {mem : QueueStateMem}

lemma get_eq_of_perm {mem' : QueueStateMem} (h : mem.entries.Perm mem'.entries) (s : ℕ) :
    mem.get s = mem'.get s :=
  Option.ext fun e => by rw [get_eq_some_iff, get_eq_some_iff, h.mem_iff]

lemma get_insertVacant {e : SyncQueueEntry} (vacant : e.seq ∉ mem.seqs) (order : HashOrder)
    (s : ℕ) :
    (mem.insertVacant e vacant order).get s = if s = e.seq then some e else mem.get s := by
  have hnone : mem.get e.seq = none := by
    rw [← Option.not_isSome_iff_eq_none, ← mem_seqs_iff]
    exact vacant
  refine Option.ext fun x => ?_
  have hmem : x ∈ (mem.insertVacant e vacant order).entries ↔ x ∈ mem.entries ∨ x = e := by
    rw [insertVacant, arrange, (order.perm _).mem_iff, List.mem_append, List.mem_singleton]
  rw [get_eq_some_iff, hmem]
  split_ifs with hs
  · subst hs
    rw [Option.some.injEq]
    constructor
    · rintro ⟨hx | rfl, hseq⟩
      · exact absurd (get_eq_some_iff.mpr ⟨hx, hseq⟩) (by simp [hnone])
      · rfl
    · rintro rfl
      exact ⟨.inr rfl, rfl⟩
  · rw [get_eq_some_iff]
    constructor
    · rintro ⟨hx | rfl, hseq⟩
      · exact ⟨hx, hseq⟩
      · exact absurd hseq.symm hs
    · rintro ⟨hx, hseq⟩
      exact ⟨.inl hx, hseq⟩

lemma get_insert (mem : QueueStateMem) (e : SyncQueueEntry) (order : HashOrder) (s : ℕ) :
    (mem.insert e order).get s = if s = e.seq then some e else mem.get s := by
  unfold insert
  split_ifs with hmem hs
  · subst hs
    obtain ⟨old, hold⟩ := Option.isSome_iff_exists.mp (mem_seqs_iff.mp hmem)
    rw [replace, get_modify, if_pos rfl, hold]
    rfl
  · rw [replace, get_modify, if_neg hs]
  · rw [get_insertVacant, if_pos ‹_›]
  · rw [get_insertVacant, if_neg ‹_›]

/-- Entries put over a map, one after another. -/
def overlay (es : List SyncQueueEntry) (g : ℕ → Option SyncQueueEntry) :
    ℕ → Option SyncQueueEntry :=
  es.foldl (fun g e => Function.update g e.seq (some e)) g

/-- Inserted one after another, the entries lie over what was there, in whatever order the map
iterates. -/
lemma get_foldl_insert (es : List SyncQueueEntry) (order : HashOrder) (mem : QueueStateMem) :
    (es.foldl (fun mem e => mem.insert e order) mem).get = overlay es mem.get := by
  induction es generalizing mem with
  | nil => rfl
  | cons e rest ih =>
    have hone : (mem.insert e order).get = Function.update mem.get e.seq (some e) := by
      funext s
      rw [get_insert, Function.update_apply]
    rw [List.foldl_cons, ih, hone]
    rfl

/-- With distinct numbers, what lies on top is the entry with the number. -/
lemma overlay_of_nodup {es : List SyncQueueEntry} (h : (es.map SyncQueueEntry.seq).Nodup)
    (g : ℕ → Option SyncQueueEntry) (s : ℕ) :
    overlay es g s = (es.find? fun e => e.seq = s).or (g s) := by
  induction es generalizing g with
  | nil => rfl
  | cons e rest ih =>
    obtain ⟨hfresh, hrest⟩ := List.nodup_cons.mp h
    have hcons : overlay (e :: rest) g = overlay rest (Function.update g e.seq (some e)) := rfl
    rw [hcons, ih hrest, List.find?_cons]
    by_cases hs : e.seq = s
    · have hnone : (rest.find? fun e => e.seq = s) = none := by
        rw [List.find?_eq_none]
        exact fun x hx hxs => hfresh (hs ▸ of_decide_eq_true hxs ▸ List.mem_map_of_mem hx)
      rw [hnone, hs, Function.update_self]
      simp
    · simp [hs, Function.update_of_ne (Ne.symm hs)]

end QueueStateMem

/-! ## Reading -/

namespace FileSyncQueue

variable [QueueCodec]

/-- What `read_all` finds, whatever the order. -/
lemma readAll_get (file : Option Bytes) (crypto : Option CryptoEngine) (order : HashOrder) :
    (readAll file crypto order).get = QueueStateMem.overlay
      ((Framing.payloads (file.getD [])).filterMap (recordEntry crypto)) fun _ => none := by
  rw [readAll, QueueStateMem.get_foldl_insert]
  rfl

/-- The file holds what the map does. -/
def Synced (q : FileSyncQueue) : Prop :=
  ∀ order s, (readAll q.file q.crypto order).get s = q.mem.get s

lemma newWithCrypto_synced (file : Option Bytes) (crypto : Option CryptoEngine)
    (turns : ℕ → QueueTurn) : (newWithCrypto file crypto turns).Synced := fun order s => by
  show (readAll file crypto order).get s = (readAll file crypto (turns 0).order).get s
  rw [readAll_get, readAll_get]

lemma Synced.congr {q q' : FileSyncQueue} (h : q.Synced) (hfile : q'.file = q.file)
    (hcrypto : q'.crypto = q.crypto) (hmem : ∀ s, q'.mem.get s = q.mem.get s) : q'.Synced :=
  fun order s => by rw [hfile, hcrypto, h order s, hmem]

/-- A reopened queue has the entries that it had before. -/
lemma Synced.reopen_get {q : FileSyncQueue} (h : q.Synced) (s : ℕ) :
    q.reopen.mem.get s = q.mem.get s := h _ s

/-! ## Writing -/

/-- What a queue relies on to read its file: the codec and the cipher undo what they did, and a
record is short enough for its header. -/
structure Readable (crypto : Option CryptoEngine) : Prop where
  codec : BsonCodec.RoundTrips
  entries : QueueCodec.RoundTrips
  sized : BsonCodec.Sized
  opens : FileOplog.CryptoRoundTrips crypto
  cipherSized : FileOplog.CryptoSized crypto

section
variable {crypto : Option CryptoEngine} {nonces : ℕ → Nonce} {es : List SyncQueueEntry}

/-- What was encoded is read back. -/
lemma recordEntry_encodeEntry (h : Readable crypto) {nonce : Nonce} {e : SyncQueueEntry}
    {p : Bytes} (henc : encodeEntry crypto nonce e = .ok p) :
    recordEntry crypto p = some e ∧ p.length < 2 ^ 32 := by
  unfold encodeEntry at henc
  cases hser : QueueCodec.serializeQueueEntry e with
  | error err => rw [hser] at henc; cases henc
  | ok doc =>
    rw [hser] at henc
    dsimp only at henc
    cases hwrite : BsonCodec.toWriter doc with
    | error err => rw [hwrite] at henc; cases henc
    | ok bytes =>
      rw [hwrite] at henc
      rw [← Except.ok.inj henc]
      refine ⟨?_, ?_⟩
      · simp [recordEntry, FileOplog.openRecord_sealRecord h.opens,
          h.codec.reader_writer _ _ hwrite, h.entries.deserialize_serialize _ _ hser,
          Except.toOption]
      · have hlen := FileOplog.length_sealRecord h.cipherSized nonce bytes
        have hbytes := (h.sized.writer_length _ _ hwrite).2
        omega

/-- The frames that `write_all` writes hold the first entries, all of them when it succeeds. -/
lemma writeLoop_frames (h : Readable crypto) {bytes : Bytes} {result : Except RangoError Unit}
    (hloop : writeLoop crypto nonces es = (bytes, result)) :
    ∃ ps n, bytes = ps.flatMap Framing.frame ∧ (∀ p ∈ ps, p.length < 2 ^ 32) ∧
      List.Forall₂ (fun p e => recordEntry crypto p = some e) ps (es.take n) ∧
      (result = .ok () → es.length ≤ n) := by
  induction es generalizing bytes with
  | nil =>
    obtain rfl := (Prod.mk.inj hloop).1
    exact ⟨[], 0, rfl, by simp, .nil, fun _ => le_rfl⟩
  | cons e rest ih =>
    rw [writeLoop] at hloop
    cases henc : encodeEntry crypto (nonces rest.length) e with
    | error err =>
      rw [henc] at hloop
      obtain ⟨rfl, rfl⟩ := Prod.mk.inj hloop
      exact ⟨[], 0, rfl, by simp, .nil, nofun⟩
    | ok p =>
      rw [henc] at hloop
      rcases hrest : writeLoop crypto nonces rest with ⟨bytes', result'⟩
      rw [hrest] at hloop
      obtain ⟨rfl, rfl⟩ := Prod.mk.inj hloop
      obtain ⟨ps, n, rfl, hlen, hps, hall⟩ := ih hrest
      obtain ⟨hread, hp⟩ := recordEntry_encodeEntry h henc
      refine ⟨p :: ps, n + 1, rfl, fun q hq => ?_, .cons hread hps,
        fun hok => Nat.succ_le_succ (hall hok)⟩
      rcases List.mem_cons.mp hq with rfl | hq
      · exact hp
      · exact hlen q hq

/-- When it succeeds, they hold the entries. -/
lemma writeLoop_ok (h : Readable crypto) {bytes : Bytes}
    (hloop : writeLoop crypto nonces es = (bytes, .ok ())) :
    ∃ ps : List Bytes, bytes = ps.flatMap Framing.frame ∧ (∀ p ∈ ps, p.length < 2 ^ 32) ∧
      List.Forall₂ (fun p e => recordEntry crypto p = some e) ps es := by
  obtain ⟨ps, n, hbytes, hlen, hps, hall⟩ := writeLoop_frames h hloop
  rw [List.take_of_length_le (hall rfl)] at hps
  exact ⟨ps, hbytes, hlen, hps⟩

lemma filterMap_recordEntry {ps : List Bytes}
    (h : List.Forall₂ (fun p e => recordEntry crypto p = some e) ps es) :
    ps.filterMap (recordEntry crypto) = es := by
  induction h with
  | nil => rfl
  | cons hp _ ih => rw [List.filterMap_cons_some hp, ih]

omit [QueueCodec] in
lemma payloads_all {ps : List Bytes} (h : ∀ p ∈ ps, p.length < 2 ^ 32) :
    Framing.payloads (ps.flatMap Framing.frame) = ps := by
  have hall := (Framing.payloads_frames h []).1
  simpa [Framing.payloads] using hall

/-- How many records of a written file lie within its first `k` bytes. -/
def wholeRecords (crypto : Option CryptoEngine) (nonces : ℕ → Nonce) (k : ℕ)
    (es : List SyncQueueEntry) : ℕ :=
  Framing.whole k (Framing.payloads (writeLoop crypto nonces es).1)

/-- A written file, cut after `k` bytes: the entries whose records are whole are read. -/
theorem readAll_take (h : Readable crypto) {bytes : Bytes}
    (hloop : writeLoop crypto nonces es = (bytes, .ok ()))
    (hnodup : (es.map SyncQueueEntry.seq).Nodup) (k : ℕ) (order : HashOrder) (s : ℕ) :
    (readAll (some (bytes.take k)) crypto order).get s =
      (es.take (wholeRecords crypto nonces k es)).find? fun e => e.seq = s := by
  obtain ⟨ps, rfl, hlen, hps⟩ := writeLoop_ok h hloop
  have htake := List.forall₂_take (Framing.whole k ps) hps
  rw [readAll_get, Option.getD_some, Framing.payloads_take_frames hlen,
    filterMap_recordEntry htake, wholeRecords, hloop, payloads_all hlen,
    QueueStateMem.overlay_of_nodup (hnodup.sublist ((List.take_sublist _ _).map _)), Option.or_none]

/-- Whatever was written and wherever it was cut, what is read is among the entries. -/
lemma mem_of_readAll_take (h : Readable crypto) {bytes : Bytes} {result : Except RangoError Unit}
    (hloop : writeLoop crypto nonces es = (bytes, result))
    (hnodup : (es.map SyncQueueEntry.seq).Nodup) {k s : ℕ} {order : HashOrder} {e : SyncQueueEntry}
    (hget : (readAll (some (bytes.take k)) crypto order).get s = some e) : e ∈ es ∧ e.seq = s := by
  obtain ⟨ps, n, rfl, hlen, hps, -⟩ := writeLoop_frames h hloop
  have htake := List.forall₂_take (Framing.whole k ps) hps
  have hsub : ((es.take n).take (Framing.whole k ps)).Sublist es :=
    (List.take_sublist _ _).trans (List.take_sublist _ _)
  rw [readAll_get, Option.getD_some, Framing.payloads_take_frames hlen,
    filterMap_recordEntry htake, QueueStateMem.overlay_of_nodup (hnodup.sublist (hsub.map _)),
    Option.or_none] at hget
  have hseq := List.find?_some hget
  exact ⟨hsub.subset (List.mem_of_find?_eq_some hget), of_decide_eq_true hseq⟩

/-- Nothing is cut off exactly when all records are whole. -/
lemma wholeRecords_eq_length_iff (h : Readable crypto) {bytes : Bytes}
    (hloop : writeLoop crypto nonces es = (bytes, .ok ())) {k : ℕ} :
    wholeRecords crypto nonces k es = es.length ↔ bytes.length ≤ k := by
  obtain ⟨ps, rfl, hlen, hps⟩ := writeLoop_ok h hloop
  rw [wholeRecords, hloop, payloads_all hlen, ← hps.length_eq]
  exact Framing.whole_eq_length_iff

end

/-! ## The calls -/

section
variable {q : FileSyncQueue}

/-- A write that succeeds leaves the map in the file. -/
theorem writeAll_synced (h : Readable q.crypto) (hok : q.writeAll.1 = .ok ()) :
    q.writeAll.2.Synced := by
  rcases hloop : writeLoop q.crypto (q.turns 0).nonces q.mem.entries with ⟨bytes, result⟩
  have hwrite : q.writeAll = (result, { q with file := some bytes, turns := q.nextTurns }) := by
    unfold writeAll at hok ⊢
    rw [hloop] at hok ⊢
    cases hfault : (q.turns 0).fault with
    | none => rfl
    | some fault =>
      rw [hfault] at hok
      cases fault with
      | create err => cases hok
      | write written err =>
        dsimp only at hok
        split_ifs at hok
        cases result <;> cases hok
  rw [hwrite] at hok ⊢
  obtain rfl : result = .ok () := hok
  intro order s
  show (readAll (some bytes) q.crypto order).get s = q.mem.get s
  have hread := readAll_take h hloop q.mem.unique bytes.length order s
  rwa [List.take_length, (wholeRecords_eq_length_iff h hloop).mpr le_rfl, List.take_length] at hread

/-- Once the file was created, a write leaves its first bytes there. -/
lemma writeAll_file (q : FileSyncQueue) :
    (∃ err, (q.turns 0).fault = some (.create err)) ∧ q.writeAll.2.file = q.file ∨
      (¬ ∃ err, (q.turns 0).fault = some (.create err)) ∧ ∃ k, q.writeAll.2.file =
        some ((writeLoop q.crypto (q.turns 0).nonces q.mem.entries).1.take k) := by
  unfold writeAll
  rcases writeLoop q.crypto (q.turns 0).nonces q.mem.entries with ⟨bytes, result⟩
  cases (q.turns 0).fault with
  | none => exact .inr ⟨by simp, bytes.length, by rw [List.take_length]⟩
  | some fault =>
    cases fault with
    | create err => exact .inl ⟨⟨err, rfl⟩, rfl⟩
    | write written err => exact .inr ⟨by simp, written, rfl⟩

@[simp] lemma writeAll_crypto (q : FileSyncQueue) : q.writeAll.2.crypto = q.crypto := by
  unfold writeAll
  cases (q.turns 0).fault with
  | none => rfl
  | some fault => cases fault <;> rfl

end
end FileSyncQueue

/-! ## A worked example -/

/-- A codec that knows the entries under one number, and one entry under each of two others. -/
@[reducible] def sampleEntryCodec : QueueCodec :=
  .ofTable [⟨1, .pending, 0, none⟩, ⟨1, .inflight, 0, none⟩, ⟨1, .acked, 0, none⟩,
    ⟨2, .acked, 0, none⟩, ⟨3, .failed, 1, some "timeout"⟩] []

/-- Turns on which every write succeeds. -/
def sampleTurns : ℕ → QueueTurn := fun _ => ⟨.inserted, fun _ => sampleNonce, none⟩

section
attribute [local instance] sampleEntryCodec

lemma sampleEntryCodec_readable : FileSyncQueue.Readable none where
  codec := BsonCodec.ofTable_roundTrips (by decide +kernel) (by decide)
  entries := ⟨fun _ _ h => BsonCodec.tableDecode_of_tableEncode (by decide +kernel) h⟩
  sized := BsonCodec.ofTable_sized (by decide +kernel) (by decide)
  opens _ h := nomatch h
  cipherSized _ h := nomatch h

end
end Rango
