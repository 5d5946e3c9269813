import Rango.Oplog.File

/-!
# The stored checkpoint

`CheckpointStore` is the interface that the scheduler calls. `FileCheckpointStore` keeps one
number in a file with a single line of JSON, which may be encrypted.
-/

namespace Rango

/-- The trait `CheckpointStore`, for an implementation with state `χ`. -/
class CheckpointStore (χ : Type) where
  get : χ → Except RangoError ℕ
  set : ℕ → χ → Except RangoError Unit × χ

/-- `String::from_utf8` and `serde_json::from_str`, with the number under `last_seq` of what
they parse, if there is one. -/
class JsonCodec where
  lastSeq : Bytes → Except String (Option ℕ)

/-- A write of a whole file that failed: before the file was emptied, or behind its first
`written` bytes. -/
inductive WriteFault where
  | create (error : String)
  | write (written : ℕ) (error : String)
deriving DecidableEq

/-- What one write of a file draws from the surroundings: a nonce, and whether the write
fails. -/
structure WriteTurn where
  nonce : Nonce
  fault : Option WriteFault

/-- `FileCheckpointStore`, with the turns that its writes will take. -/
structure FileCheckpointStore where
  file : Option Bytes
  crypto : Option CryptoEngine
  turns : ℕ → WriteTurn

namespace FileCheckpointStore

open FileOplog (openRecord sealRecord)

/-- The line that holds a number. -/
def line (checkpoint : ℕ) : Bytes :=
  ("\x7b\"last_seq\":" ++ Nat.repr checkpoint ++ "\x7d").toList.flatMap String.utf8EncodeChar

/-- The turns that are left when one has been taken. -/
def nextTurns (s : FileCheckpointStore) (n : ℕ) : WriteTurn := s.turns (n + 1)

/-- `FileCheckpointStore::get`. A missing file is the initial checkpoint, a missing number
zero. -/
def get [JsonCodec] (s : FileCheckpointStore) : Except RangoError ℕ :=
  match s.file with
  | none => .ok 0
  | some buf =>
    match openRecord s.crypto buf with
    | .error err => .error err
    | .ok plaintext =>
      match JsonCodec.lastSeq plaintext with
      | .error err => .error (.storage err)
      | .ok seq => .ok (seq.getD 0)

/-- `FileCheckpointStore::set`. The file is emptied before it is written. -/
def set (checkpoint : ℕ) (s : FileCheckpointStore) : Except RangoError Unit × FileCheckpointStore :=
  let bytes := sealRecord s.crypto (s.turns 0).nonce (line checkpoint)
  match (s.turns 0).fault with
  | none => (.ok (), { s with file := some bytes, turns := s.nextTurns })
  | some (.create err) => (.error (.storage err), { s with turns := s.nextTurns })
  | some (.write written err) =>
    (.error (.storage err), { s with file := some (bytes.take written), turns := s.nextTurns })

instance [JsonCodec] : CheckpointStore FileCheckpointStore where
  get := get
  set := set

end FileCheckpointStore

/-- A codec for worked examples: it knows the lines of the given numbers. -/
@[reducible] def JsonCodec.ofTable (rows : List ℕ) : JsonCodec where
  lastSeq := BsonCodec.tableDecode (rows.map some) fun n => n.map FileCheckpointStore.line

end Rango
