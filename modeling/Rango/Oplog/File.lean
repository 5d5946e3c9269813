import Rango.Lib.Framing
import Rango.Lib.Runs
import Rango.Storage.Crypto

/-!
# The file oplog

`FileOplog` over the bytes of its two files: the log, a stream of frames with one encoded
entry each, and the `.applied` file with the set of applied numbers. The counter and the
applied set are also kept in memory and are rebuilt from the files on opening. A write may
stop after some of its bytes (`PartialWrite`).
-/

namespace Rango

/-- A write that failed after its first `written` bytes. -/
structure PartialWrite where
  written : ℕ
  error : String

/-- `FileOplog`: its two files, and what the process keeps in memory. -/
structure FileOplog where
  log : Bytes
  appliedFile : Option Bytes
  nextSeq : ℕ
  applied : List ℕ
  crypto : Option CryptoEngine

namespace FileOplog

section
variable [BsonCodec]

/-! ## Records -/

/-- The bytes as they are stored. -/
def sealRecord (crypto : Option CryptoEngine) (nonce : Nonce) (bytes : Bytes) : Bytes :=
  match crypto with
  | some c => c.encrypt nonce bytes
  | none => bytes

/-- The bytes as they were before they were stored. -/
def openRecord (crypto : Option CryptoEngine) (buf : Bytes) : Except RangoError Bytes :=
  match crypto with
  | some c => c.decrypt buf
  | none => .ok buf

/-- The entry that the bytes encode, if they do. -/
def parseEntry (plaintext : Bytes) : Option OplogEntry :=
  (BsonCodec.fromReader plaintext).toOption.bind fun doc =>
    (BsonCodec.deserializeEntry doc).toOption

/-- The entry that a stored record opens and parses to, if it does. -/
def recordEntry (crypto : Option CryptoEngine) (buf : Bytes) : Option OplogEntry :=
  (openRecord crypto buf).toOption.bind parseEntry

/-- The entries in the log's records. -/
def entries (w : FileOplog) : List OplogEntry :=
  (Framing.payloads w.log).filterMap (recordEntry w.crypto)

/-! ## Opening -/

/-- The loop of `read_latest_seq`. -/
def latestLoop (crypto : Option CryptoEngine) (latest : ℕ) : List Bytes → Except RangoError ℕ
  | [] => .ok latest
  | buf :: rest =>
    match openRecord crypto buf with
    | .error err => .error err
    | .ok plaintext =>
      match parseEntry plaintext with
      | some entry => latestLoop crypto entry.seq rest
      | none => latestLoop crypto latest rest

/-- `FileOplog::read_latest_seq`. -/
def readLatestSeq (crypto : Option CryptoEngine) (log : Bytes) : Except RangoError ℕ :=
  latestLoop crypto 0 (Framing.payloads log)

/-- The numbers in an array, as the `u64` that were stored as `i64`. -/
def appliedNumbers (arr : List Bson) : List ℕ :=
  (arr.filterMap Bson.asI64).map fun v => (v % 2 ^ 64).toNat

/-- `FileOplog::read_applied`. -/
def readApplied (crypto : Option CryptoEngine) (file : Option Bytes) :
    Except RangoError (List ℕ) :=
  match file with
  | none => .ok []
  | some buf =>
    if buf = [] then .ok []
    else
      match openRecord crypto buf with
      | .error err => .error err
      | .ok plaintext =>
        match BsonCodec.fromReader plaintext with
        | .error _ => .ok []
        | .ok doc => .ok (((doc.getArray "applied").map appliedNumbers).getD [])

/-- `FileOplog::new_with_crypto` on the contents of the two files; a missing log is created
empty. -/
def newWithCrypto (log appliedFile : Option Bytes) (crypto : Option CryptoEngine) :
    Except RangoError FileOplog :=
  match readLatestSeq crypto (log.getD []) with
  | .error err => .error err
  | .ok nextSeq =>
    match readApplied crypto appliedFile with
    | .error err => .error err
    | .ok applied => .ok { log := log.getD [], appliedFile, nextSeq, applied, crypto }

/-- Another `new_with_crypto` on the same path. -/
def reopen (w : FileOplog) : Except RangoError FileOplog :=
  newWithCrypto (some w.log) w.appliedFile w.crypto

/-! ## Appending and reading -/

/-- The stored bytes of an entry. -/
def encodeEntry (crypto : Option CryptoEngine) (nonce : Nonce) (entry : OplogEntry) :
    Except RangoError Bytes :=
  match BsonCodec.serializeEntry entry with
  | .error err => .error (.storage err)
  | .ok doc =>
    match BsonCodec.toWriter doc with
    | .error err => .error (.storage err)
    | .ok bytes => .ok (sealRecord crypto nonce bytes)

/-- `FileOplog::append`. The counter is raised before anything can fail. -/
def append (w : FileOplog) (entry : OplogEntry) (nonce : Nonce) (fault : Option PartialWrite) :
    Except RangoError ℕ × FileOplog :=
  let seq := w.nextSeq + 1
  match encodeEntry w.crypto nonce (entry.withSeq seq) with
  | .error err => (.error err, { w with nextSeq := seq })
  | .ok bytes =>
    match fault with
    | none => (.ok seq, { w with log := w.log ++ Framing.frame bytes, nextSeq := seq })
    | some f =>
      (.error (.storage f.error),
        { w with log := w.log ++ (Framing.frame bytes).take f.written, nextSeq := seq })

/-- The loop of `read_since`. Records that do not open or parse are passed over; the limit is
checked after an entry is taken. -/
def readLoop (crypto : Option CryptoEngine) (seq limit : ℕ) (entries : List OplogEntry) :
    List Bytes → List OplogEntry
  | [] => entries
  | buf :: rest =>
    match openRecord crypto buf with
    | .error _ => readLoop crypto seq limit entries rest
    | .ok plaintext =>
      match parseEntry plaintext with
      | none => readLoop crypto seq limit entries rest
      | some entry =>
        if seq ≤ entry.seq then
          if limit ≤ (entries ++ [entry]).length then entries ++ [entry]
          else readLoop crypto seq limit (entries ++ [entry]) rest
        else readLoop crypto seq limit entries rest

/-- `FileOplog::read_since`. -/
def readSince (w : FileOplog) (seq limit : ℕ) : Except RangoError (List OplogEntry) :=
  .ok (readLoop w.crypto seq limit [] (Framing.payloads w.log))

/-- `FileOplog::latest_seq`. -/
def latestSeq (w : FileOplog) : Except RangoError ℕ := .ok w.nextSeq

/-! ## Applied markers and compaction -/

/-- The document of the `.applied` file. -/
def appliedDocument (applied : List ℕ) : Document :=
  Document.empty.insert "applied"
    (.array (applied.map fun v : ℕ => .int64 ((v : ℤ).bmod (2 ^ 64))))

/-- `FileOplog::write_applied`. The file is emptied before it is written. -/
def writeApplied (w : FileOplog) (nonce : Nonce) (fault : Option PartialWrite) :
    Except RangoError Unit × FileOplog :=
  match BsonCodec.toWriter (appliedDocument w.applied) with
  | .error err => (.error (.storage err), w)
  | .ok bytes =>
    let bytes := sealRecord w.crypto nonce bytes
    match fault with
    | none => (.ok (), { w with appliedFile := some bytes })
    | some f => (.error (.storage f.error), { w with appliedFile := some (bytes.take f.written) })

/-- `FileOplog::mark_applied`. -/
def markApplied (w : FileOplog) (seq : ℕ) (nonce : Nonce) (fault : Option PartialWrite) :
    Except RangoError Unit × FileOplog :=
  writeApplied { w with applied := if seq ∈ w.applied then w.applied else seq :: w.applied }
    nonce fault

/-- Whether `compact` keeps a record: one that does not open and one that is a document but
no entry are kept, one that is no document is dropped. -/
def keepRecord (crypto : Option CryptoEngine) (applied : List ℕ) (buf : Bytes) : Bool :=
  match openRecord crypto buf with
  | .error _ => true
  | .ok plaintext =>
    match BsonCodec.fromReader plaintext with
    | .error _ => false
    | .ok doc =>
      match BsonCodec.deserializeEntry doc with
      | .ok entry => entry.seq ∉ applied
      | .error _ => true

/-- `FileOplog::compact`. The new log replaces the old one only at the end. -/
def compact (w : FileOplog) (fault : Option String) : Except RangoError ℕ × FileOplog :=
  match fault with
  | some err => (.error (.storage err), w)
  | none =>
    let kept := (Framing.payloads w.log).filter (keepRecord w.crypto w.applied)
    (.ok kept.length, { w with log := kept.flatMap Framing.frame })

end
end FileOplog

/-! ## Runs -/

/-- One call on a file oplog. -/
inductive FileStep where
  | append (entry : OplogEntry) (nonce : Nonce) (fault : Option PartialWrite)
  | markApplied (seq : ℕ) (nonce : Nonce) (fault : Option PartialWrite)
  | compact (fault : Option String)
  | reopen

/-- A file oplog together with its history: the entries whose append returned a number, under
that number, and those of them that were not marked applied since. -/
structure FileRun where
  oplog : FileOplog
  accepted : List OplogEntry
  unmarked : List OplogEntry

namespace FileRun
variable [BsonCodec]

/-- The first run on a new path. -/
def start (crypto : Option CryptoEngine) : FileRun :=
  ⟨⟨[], none, 0, [], crypto⟩, [], []⟩

/-- One call: whether it failed, and what it leaves. A reopen that fails leaves the old
handle. -/
def call (r : FileRun) : FileStep → Except RangoError Unit × FileRun
  | .append entry nonce fault =>
    match r.oplog.append entry nonce fault with
    | (.error err, w) => (.error err, { r with oplog := w })
    | (.ok seq, w) =>
      (.ok (), ⟨w, r.accepted ++ [entry.withSeq seq], r.unmarked ++ [entry.withSeq seq]⟩)
  | .markApplied seq nonce fault =>
    match r.oplog.markApplied seq nonce fault with
    | (.error err, w) => (.error err, { r with oplog := w })
    | (.ok (), w) => (.ok (), { r with oplog := w, unmarked := r.unmarked.filter (·.seq ≠ seq) })
  | .compact fault =>
    match r.oplog.compact fault with
    | (.error err, w) => (.error err, { r with oplog := w })
    | (.ok _, w) => (.ok (), { r with oplog := w })
  | .reopen =>
    match r.oplog.reopen with
    | .error err => (.error err, r)
    | .ok w => (.ok (), { r with oplog := w })

/-- What one call leaves. -/
def step (r : FileRun) (s : FileStep) : FileRun := (r.call s).2

/-- What a run of calls leaves. -/
def run (r : FileRun) (steps : List FileStep) : FileRun := steps.foldl step r

/-- No call of the run fails. -/
def Succeeds (r : FileRun) (steps : List FileStep) : Prop :=
  Runs.All step (fun r s => (r.call s).1 = .ok ()) r steps

end FileRun
end Rango
