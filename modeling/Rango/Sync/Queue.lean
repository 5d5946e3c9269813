import Rango.Sync.Checkpoint

/-!
# The sync queue

`SyncQueue` is the interface that the scheduler calls. `FileSyncQueue` keeps the queue in a
map by sequence number and writes the whole map to its file, as length-prefixed records, after
every change. The map is the list of its values in the order in which it iterates
(`QueueStateMem`). What the surroundings decide for a call is its `QueueTurn`.
-/

namespace Rango

/-- `QueueState`. -/
inductive QueueState where
  | pending
  | inflight
  | acked
  | failed
deriving DecidableEq

/-- `SyncQueueEntry`. -/
structure SyncQueueEntry where
  seq : ℕ
  state : QueueState
  retries : ℕ
  lastError : Option String
deriving DecidableEq

/-- The trait `SyncQueue`, for an implementation with state `κ`. -/
class SyncQueue (κ : Type) where
  enqueue : ℕ → κ → Except RangoError Unit × κ
  nextBatch : ℕ → κ → Except RangoError (List SyncQueueEntry) × κ
  markInflight : List ℕ → κ → Except RangoError Unit × κ
  markAcked : List ℕ → κ → Except RangoError Unit × κ
  markFailed : ℕ → String → κ → Except RangoError Unit × κ

/-! ## The map -/

/-- `QueueStateMem`: the entries by their number, in the order of the map's iteration. -/
structure QueueStateMem where
  entries : List SyncQueueEntry
  unique : (entries.map SyncQueueEntry.seq).Nodup

namespace QueueStateMem

def empty : QueueStateMem := ⟨[], List.nodup_nil⟩

/-- The numbers in the map. -/
def seqs (mem : QueueStateMem) : List ℕ := mem.entries.map SyncQueueEntry.seq

/-- `HashMap::get`. -/
def get (mem : QueueStateMem) (seq : ℕ) : Option SyncQueueEntry :=
  mem.entries.find? fun e => e.seq = seq

/-- A change of an entry that leaves its number. -/
structure Change (seq : ℕ) where
  apply : SyncQueueEntry → SyncQueueEntry
  keeps : ∀ e, e.seq = seq → (apply e).seq = seq

/-- The entries with the one under a number changed, if there is one. -/
def modified {seq : ℕ} (c : Change seq) (entries : List SyncQueueEntry) : List SyncQueueEntry :=
  entries.map fun e => if e.seq = seq then c.apply e else e

@[simp] lemma map_seq_modified {seq : ℕ} (c : Change seq) (entries : List SyncQueueEntry) :
    (modified c entries).map SyncQueueEntry.seq = entries.map SyncQueueEntry.seq := by
  rw [modified, List.map_map]
  refine List.map_congr_left fun e _ => ?_
  show (if e.seq = seq then c.apply e else e).seq = e.seq
  split_ifs with he
  · rw [c.keeps e he, he]
  · rfl

/-- `HashMap::get_mut`, and an update through it. -/
def modify (mem : QueueStateMem) {seq : ℕ} (c : Change seq) : QueueStateMem where
  entries := modified c mem.entries
  unique := by
    rw [map_seq_modified]
    exact mem.unique

/-- `HashMap::insert` under a number that the map has: the new value takes the old one's
place. -/
def replace (mem : QueueStateMem) (e : SyncQueueEntry) : QueueStateMem :=
  mem.modify (⟨fun _ => e, fun _ _ => rfl⟩ : Change e.seq)

end QueueStateMem

/-- The order in which the map iterates once a number was added to it. -/
structure HashOrder where
  arrange : List SyncQueueEntry → List SyncQueueEntry
  perm : ∀ es, (arrange es).Perm es

namespace HashOrder

/-- The order of insertion. -/
def inserted : HashOrder := ⟨id, fun _ => .rfl⟩

end HashOrder

namespace QueueStateMem

/-- The map in another order. -/
def arrange (mem : QueueStateMem) (order : HashOrder) : QueueStateMem where
  entries := order.arrange mem.entries
  unique := (((order.perm mem.entries).map SyncQueueEntry.seq).nodup_iff).mpr mem.unique

/-- `VacantEntry::insert`. -/
def insertVacant (mem : QueueStateMem) (e : SyncQueueEntry) (vacant : e.seq ∉ mem.seqs)
    (order : HashOrder) : QueueStateMem :=
  arrange
    { entries := mem.entries ++ [e]
      unique := by
        rw [List.map_append, List.nodup_append]
        refine ⟨mem.unique, by simp, fun s hs t ht heq => vacant ?_⟩
        rw [List.map_singleton, List.mem_singleton] at ht
        rw [← ht, ← heq]
        exact hs } order

/-- `HashMap::insert`. -/
def insert (mem : QueueStateMem) (e : SyncQueueEntry) (order : HashOrder) : QueueStateMem :=
  if h : e.seq ∈ mem.seqs then mem.replace e else mem.insertVacant e h order

end QueueStateMem

/-! ## The file -/

/-- `serialize_to_document` and `deserialize_from_document` of a queue entry. -/
class QueueCodec extends BsonCodec where
  serializeQueueEntry : SyncQueueEntry → Except String Document
  deserializeQueueEntry : Document → Except String SyncQueueEntry

namespace QueueCodec

/-- The fields of a serialized queue entry. -/
def entryDocument (e : SyncQueueEntry) : Document :=
  let state : QueueState → String
    | .pending => "pending"
    | .inflight => "inflight"
    | .acked => "acked"
    | .failed => "failed"
  ⟨[("seq", .int64 e.seq), ("state", .string (state e.state)), ("retries", .int64 e.retries),
    ("last_error", e.lastError.elim .null .string)]⟩

/-- A codec for worked examples: it knows the given queue entries and oplog entries. -/
@[reducible] def ofTable (rows : List SyncQueueEntry) (entries : List OplogEntry) :
    QueueCodec where
  toBsonCodec := .ofTable entries
    (rows.map entryDocument ++ entries.map BsonCodec.entryDocument)
  serializeQueueEntry := BsonCodec.tableEncode rows fun e => some (entryDocument e)
  deserializeQueueEntry := BsonCodec.tableDecode rows fun e => some (entryDocument e)

end QueueCodec

/-- What the surroundings decide for one call on a queue. -/
structure QueueTurn where
  order : HashOrder
  nonces : ℕ → Nonce
  fault : Option WriteFault

/-- `FileSyncQueue`, with the turns that its calls will take. -/
structure FileSyncQueue where
  file : Option Bytes
  mem : QueueStateMem
  crypto : Option CryptoEngine
  turns : ℕ → QueueTurn

namespace FileSyncQueue

open FileOplog (openRecord sealRecord)

/-- The turns that are left when one has been taken. -/
def nextTurns (q : FileSyncQueue) (n : ℕ) : QueueTurn := q.turns (n + 1)

section
variable [QueueCodec]

/-! ### Reading -/

/-- The entry that a record of the file opens and parses to, if it does. -/
def recordEntry (crypto : Option CryptoEngine) (buf : Bytes) : Option SyncQueueEntry :=
  (openRecord crypto buf).toOption.bind fun plaintext =>
    (BsonCodec.fromReader plaintext).toOption.bind fun doc =>
      (QueueCodec.deserializeQueueEntry doc).toOption

/-- `FileSyncQueue::read_all`. Records that do not open or parse are passed over. -/
def readAll (file : Option Bytes) (crypto : Option CryptoEngine) (order : HashOrder) :
    QueueStateMem :=
  ((Framing.payloads (file.getD [])).filterMap (recordEntry crypto)).foldl
    (fun mem e => mem.insert e order) .empty

/-- `FileSyncQueue::new_with_crypto` on the contents of the file. -/
def newWithCrypto (file : Option Bytes) (crypto : Option CryptoEngine) (turns : ℕ → QueueTurn) :
    FileSyncQueue where
  file := file
  mem := readAll file crypto (turns 0).order
  crypto := crypto
  turns := fun n => turns (n + 1)

/-- Another `new_with_crypto` on the same path. -/
def reopen (q : FileSyncQueue) : FileSyncQueue := newWithCrypto q.file q.crypto q.turns

/-! ### Writing -/

/-- The stored bytes of an entry. -/
def encodeEntry (crypto : Option CryptoEngine) (nonce : Nonce) (e : SyncQueueEntry) :
    Except RangoError Bytes :=
  match QueueCodec.serializeQueueEntry e with
  | .error err => .error (.storage err)
  | .ok doc =>
    match BsonCodec.toWriter doc with
    | .error err => .error (.storage err)
    | .ok bytes => .ok (sealRecord crypto nonce bytes)

/-- The loop of `write_all`: what it writes, up to the entry that cannot be encoded if there
is one. -/
def writeLoop (crypto : Option CryptoEngine) (nonces : ℕ → Nonce) :
    List SyncQueueEntry → Bytes × Except RangoError Unit
  | [] => ([], .ok ())
  | e :: rest =>
    match encodeEntry crypto (nonces rest.length) e with
    | .error err => ([], .error err)
    | .ok record =>
      match writeLoop crypto nonces rest with
      | (bytes, result) => (Framing.frame record ++ bytes, result)

/-- `FileSyncQueue::write_all`. The file is emptied before it is written. -/
def writeAll (q : FileSyncQueue) : Except RangoError Unit × FileSyncQueue :=
  let (bytes, result) := writeLoop q.crypto (q.turns 0).nonces q.mem.entries
  match (q.turns 0).fault with
  | none => (result, { q with file := some bytes, turns := q.nextTurns })
  | some (.create err) => (.error (.storage err), { q with turns := q.nextTurns })
  | some (.write written err) =>
    (if bytes.length ≤ written then result.bind fun _ => .error (.storage err)
      else .error (.storage err),
      { q with file := some (bytes.take written), turns := q.nextTurns })

/-! ### The calls -/

/-- The map is changed first, whether it can be written or not. -/
def withMem (q : FileSyncQueue) (mem : QueueStateMem) : FileSyncQueue := { q with mem }

/-- `FileSyncQueue::enqueue`. -/
def enqueue (seq : ℕ) (q : FileSyncQueue) : Except RangoError Unit × FileSyncQueue :=
  if h : seq ∈ q.mem.seqs then (.ok (), q)
  else
    (q.withMem (q.mem.insertVacant ⟨seq, .pending, 0, none⟩ h (q.turns 0).order)).writeAll

/-- The entries that `next_batch` takes, as they are in the map. -/
def pendingBatch (limit : ℕ) (q : FileSyncQueue) : List SyncQueueEntry :=
  (q.mem.entries.filter fun e => e.state = .pending).take limit

/-- `FileSyncQueue::next_batch`. -/
def nextBatch (limit : ℕ) (q : FileSyncQueue) :
    Except RangoError (List SyncQueueEntry) × FileSyncQueue :=
  let batch := (q.pendingBatch limit).map fun e => { e with state := .inflight }
  let q := q.withMem (batch.foldl QueueStateMem.replace q.mem)
  if batch = [] then (.ok batch, q)
  else
    match q.writeAll with
    | (.error err, q) => (.error err, q)
    | (.ok (), q) => (.ok batch, q)

/-- An entry's new state. -/
def setState (seq : ℕ) (state : QueueState) : QueueStateMem.Change seq :=
  ⟨fun e => { e with state }, fun _ he => he⟩

/-- `FileSyncQueue::mark_inflight`. -/
def markInflight (seqs : List ℕ) (q : FileSyncQueue) : Except RangoError Unit × FileSyncQueue :=
  (q.withMem (seqs.foldl (fun mem seq => mem.modify (setState seq .inflight)) q.mem)).writeAll

/-- `FileSyncQueue::mark_acked`. -/
def markAcked (seqs : List ℕ) (q : FileSyncQueue) : Except RangoError Unit × FileSyncQueue :=
  (q.withMem (seqs.foldl (fun mem seq => mem.modify (setState seq .acked)) q.mem)).writeAll

/-- The change of `mark_failed`. -/
def setFailed (seq : ℕ) (error : String) : QueueStateMem.Change seq :=
  ⟨fun e => { e with state := .failed, retries := (e.retries + 1) % 2 ^ 32, lastError := error },
    fun _ he => he⟩

/-- `FileSyncQueue::mark_failed`. -/
def markFailed (seq : ℕ) (error : String) (q : FileSyncQueue) :
    Except RangoError Unit × FileSyncQueue :=
  (q.withMem (q.mem.modify (setFailed seq error))).writeAll

instance : SyncQueue FileSyncQueue where
  enqueue := enqueue
  nextBatch := nextBatch
  markInflight := markInflight
  markAcked := markAcked
  markFailed := markFailed

end
end FileSyncQueue
end Rango
