import Rango.Core.Find
import Rango.Sync.Queue

/-!
# The doctor command

`run_doctor` of the command line on the files of a workspace: it opens an engine and tries its
operations on a collection of its own, looks at stored records for the fields of the current
format, and opens the oplog, the sync queue and the checkpoint. What it finds is a `DoctorReport`;
`DoctorOutcome` has it together with the files that the command leaves.
-/

namespace Rango

/-- `CryptoEngine::from_passphrase`. -/
class KeyDerivation where
  fromPassphrase : String → Bytes → CryptoEngine

/-! ## The oplog of a client -/

/-- What one write of an oplog draws from the surroundings. -/
structure OplogTurn where
  nonce : Nonce
  fault : Option PartialWrite

/-- A `FileOplog`, with the turns that its writes will take. -/
structure OplogHandle where
  file : FileOplog
  turns : ℕ → OplogTurn

namespace OplogHandle
variable [BsonCodec]

/-- The turns that are left when one has been taken. -/
def nextTurns (w : OplogHandle) (n : ℕ) : OplogTurn := w.turns (n + 1)

def append (entry : OplogEntry) (w : OplogHandle) : Except RangoError ℕ × OplogHandle :=
  match w.file.append entry (w.turns 0).nonce (w.turns 0).fault with
  | (result, file) => (result, ⟨file, w.nextTurns⟩)

def markApplied (seq : ℕ) (w : OplogHandle) : Except RangoError Unit × OplogHandle :=
  match w.file.markApplied seq (w.turns 0).nonce (w.turns 0).fault with
  | (result, file) => (result, ⟨file, w.nextTurns⟩)

instance : Oplog OplogHandle where
  append := append
  readSince seq limit w := w.file.readSince seq limit
  markApplied := markApplied
  latestSeq w := w.file.latestSeq

end OplogHandle

/-! ## The workspace -/

/-- The files of a workspace, and whether its directory exists. `storage` is what opening
`data.redb` gives, `config` what `load_config` reads. -/
structure WorkspaceFiles (σ : Type) where
  directory : Bool
  salt : Option (Except String Bytes)
  config : RangoConfig
  storage : Except RangoError σ
  oplog : Option Bytes
  applied : Option Bytes
  queue : Option Bytes
  checkpoint : Option Bytes

/-- What the surroundings decide for one run of the command. -/
structure DoctorTurns where
  clocks : ℕ → WriteClock
  oplog : ℕ → OplogTurn
  queue : ℕ → QueueTurn
  /-- the error of `File::open` on the queue -/
  queueOpen : Option String
  checkpoint : ℕ → WriteTurn

/-- `load_crypto`. -/
def loadCrypto [KeyDerivation] (salt : Option (Except String Bytes)) (passphrase : Option String) :
    Except String (Option CryptoEngine) :=
  match salt, passphrase with
  | some (.error err), _ => .error err
  | some (.ok _), none => .error "Workspace is encrypted. Passphrase required."
  | some (.ok salt), some pass => .ok (some (KeyDerivation.fromPassphrase pass salt))
  | none, some _ => .error "Passphrase provided but workspace is not encrypted."
  | none, none => .ok none

/-! ## The report -/

/-- `DoctorReport`. -/
structure DoctorReport where
  errors : List String
  warnings : List String

namespace DoctorReport

def new : DoctorReport := ⟨[], []⟩

def addError (r : DoctorReport) (msg : String) : DoctorReport :=
  { r with errors := r.errors ++ [msg] }

def addWarning (r : DoctorReport) (msg : String) : DoctorReport :=
  { r with warnings := r.warnings ++ [msg] }

def hasErrors (r : DoctorReport) : Bool := r.errors ≠ []

/-- The report behind the check of the directory. -/
def opening (path : String) (directory : Bool) : DoctorReport :=
  if directory then new else new.addWarning ("workspace directory not found: " ++ path)

end DoctorReport

/-- How the command ends when it does not return `Ok`. -/
inductive DoctorFault where
  | error (msg : String)
  | panic

/-- The fault that `?` makes of an error. -/
def DoctorFault.ofError (err : RangoError) : DoctorFault := .error err.display

/-- What `?` and a panic make of a call's fault. -/
def DoctorFault.ofFault : Fault → DoctorFault
  | .error err => .ofError err
  | .panic => .panic

/-- The entries of a batch by state, as they are printed. -/
structure QueueCounts where
  pending : ℕ
  inflight : ℕ
  failed : ℕ
deriving DecidableEq

def QueueCounts.ofBatch (batch : List SyncQueueEntry) : QueueCounts where
  pending := batch.countP fun e => e.state = .pending
  inflight := batch.countP fun e => e.state = .inflight
  failed := batch.countP fun e => e.state = .failed

/-! ## The checks on an engine -/

section Client
variable {σ : Type} [Formatting] [StorageEngine σ] [BsonCodec]

/-- The engine of `open_persistent_client`. -/
def openPersistentClient (crypto : Option CryptoEngine) (t : DoctorTurns) (ws : WorkspaceFiles σ) :
    Except RangoError (RangoEngine σ OplogHandle) :=
  match ws.storage with
  | .error err => .error err
  | .ok storage =>
    match FileOplog.newWithCrypto ws.oplog ws.applied crypto with
    | .error err => .error err
    | .ok file => .ok (.openWithConfig storage ⟨file, t.oplog⟩ "doctor-node" ws.config)

/-- The collection that the doctor writes to. -/
def doctorCollection : CollectionName := ⟨"__doctor_test"⟩

/-- The fields whose absence in a new document is warned of. -/
def metadataFields : List String := ["_rev", "_updated_at", "_source_node"]

/-- The warnings on a new document. -/
def metadataWarnings (doc : Document) : List String :=
  (metadataFields.filter fun field => (doc.get field).isNone).map (· ++ " field missing")

variable [MutationHasher]

/-- The metadata check. -/
def metadataCheck (clocks : ℕ → WriteClock) (report : DoctorReport)
    (e : RangoEngine σ OplogHandle) :
    Except DoctorFault DoctorReport × RangoEngine σ OplogHandle :=
  match e.insertOne doctorCollection ⟨[("name", .string "doctor")]⟩ (clocks 3) with
  | (.error err, e) => (.error (.ofError err), e)
  | (.ok id, e) =>
    match e.findOne doctorCollection id with
    | .error err => (.error (.ofError err), e)
    | .ok none => (.error .panic, e)
    | .ok (some doc) =>
      (.ok ((metadataWarnings doc).foldl .addWarning report),
        (e.deleteOne doctorCollection id (clocks 4)).2)

variable [Arithmetic]

/-- The operations check, and the metadata check behind it. -/
def operationsCheck (clocks : ℕ → WriteClock) (report : DoctorReport)
    (e : RangoEngine σ OplogHandle) :
    Except DoctorFault DoctorReport × RangoEngine σ OplogHandle :=
  match e.insertOne doctorCollection ⟨[("test", .boolean true)]⟩ (clocks 0) with
  | (.error err, e) => (.error (.ofError err), e)
  | (.ok id, e) =>
    match e.findOne doctorCollection id with
    | .error err => (.error (.ofError err), e)
    | .ok none => (.error .panic, e)
    | .ok (some _) =>
      match e.updateOne doctorCollection id ⟨[("$set", .document [("test", .boolean false)])]⟩
          (clocks 1) with
      | (.error fault, e) => (.error (.ofFault fault), e)
      | (.ok false, e) => (.error .panic, e)
      | (.ok true, e) =>
        match e.deleteOne doctorCollection id (clocks 2) with
        | (.error err, e) => (.error (.ofError err), e)
        | (.ok false, e) => (.error .panic, e)
        | (.ok true, e) => metadataCheck clocks report e

/-- The collections that are sampled. -/
def sampleCollections : List CollectionName := [⟨"documents"⟩, ⟨"records"⟩, ⟨"data"⟩, ⟨"items"⟩]

/-- The fields of a record in the current format. -/
def canonicalFields : List String :=
  ["tenant_id", "namespace", "lineage", "trust_score", "verified", "expires_at", "_rev",
    "_updated_at", "_source_node"]

/-- The errors on a record, one for each field that it lacks. -/
def envelopeErrors (c : CollectionName) (record : Document) : List String :=
  let recordId := ((record.get "_id").map Formatting.bsonDisplay).getD "(unknown)"
  (canonicalFields.filter fun field => (record.get field).isNone).map fun field =>
    "workspace incompatible: record " ++ recordId ++ " in collection " ++ c.name ++
      " missing canonical metadata field `" ++ field ++
      "` (legacy v0.0 shape; run upgrade — see docs/operations/migration-v0.0-to-v0.1.md)"

omit [BsonCodec] [MutationHasher] [Arithmetic] in
/-- The loop of `check_canonical_envelope_metadata`: it stops behind the first collection with a
record. -/
def envelopeLoop [BsonTraits] [SliceSort] (report : DoctorReport) (e : RangoEngine σ OplogHandle) :
    List CollectionName → Except DoctorFault DoctorReport × RangoEngine σ OplogHandle
  | [] => (.ok report, e)
  | c :: rest =>
    match e.findMany c with
    | (.error .panic, e) => (.error .panic, e)
    | (.error (.error _), e) => envelopeLoop report e rest
    | (.ok cursor, e) =>
      match (cursor.take 20).filterMap Except.toOption with
      | [] => envelopeLoop report e rest
      | record :: records =>
        (.ok (((record :: records).flatMap (envelopeErrors c)).foldl .addError report), e)

/-- All that is done with the engine. -/
def clientChecks [BsonTraits] [SliceSort] (clocks : ℕ → WriteClock) (report : DoctorReport)
    (e : RangoEngine σ OplogHandle) :
    Except DoctorFault DoctorReport × RangoEngine σ OplogHandle :=
  match operationsCheck clocks report e with
  | (.error fault, e) => (.error fault, e)
  | (.ok report, e) => envelopeLoop report e sampleCollections

end Client

/-! ## The check of the sync files -/

/-- What the command printed, how it ended, and the files that it leaves. -/
structure DoctorOutcome (σ : Type) where
  result : Except DoctorFault Unit
  report : DoctorReport
  queueCounts : Option QueueCounts
  files : WorkspaceFiles σ

/-- The files as the client leaves them. -/
def WorkspaceFiles.afterClient {σ : Type} (ws : WorkspaceFiles σ)
    (e : RangoEngine σ OplogHandle) : WorkspaceFiles σ :=
  { ws with storage := .ok e.storage, oplog := some e.oplog.file.log
            applied := e.oplog.file.appliedFile }

/-- The files once opening the client has failed: behind the storage, the file of the oplog is
created before it is read. -/
def WorkspaceFiles.afterFailedOpen {σ : Type} (ws : WorkspaceFiles σ) : WorkspaceFiles σ :=
  { ws with
    oplog :=
      match ws.storage with
      | .error _ => ws.oplog
      | .ok _ => some (ws.oplog.getD []) }

section SyncCheck
variable {σ : Type} [QueueCodec] [JsonCodec]

/-- The check of the oplog. -/
def oplogCheck (crypto : Option CryptoEngine) (ws : WorkspaceFiles σ) (report : DoctorReport) :
    DoctorReport :=
  match ws.oplog with
  | none => report
  | some log =>
    match FileOplog.newWithCrypto (some log) ws.applied crypto with
    | .error err => report.addWarning ("oplog exists but cannot open: " ++ err.display)
    | .ok _ => report

/-- The check of the sync queue: the entries are counted in a batch that is taken. -/
def queueCheck (crypto : Option CryptoEngine) (t : DoctorTurns) (ws : WorkspaceFiles σ)
    (report : DoctorReport) : DoctorReport × Option QueueCounts × Option Bytes :=
  match ws.queue with
  | none => (report, none, none)
  | some file =>
    match t.queueOpen with
    | some err =>
      (report.addWarning
          ("sync queue exists but cannot open: " ++ (RangoError.storage err).display),
        none, some file)
    | none =>
      match (FileSyncQueue.newWithCrypto (some file) crypto t.queue).nextBatch 1000 with
      | (batch, queue) => (report, some (.ofBatch (batch.toOption.getD [])), queue.file)

/-- The check of the checkpoint. -/
def checkpointCheck (crypto : Option CryptoEngine) (t : DoctorTurns) (ws : WorkspaceFiles σ)
    (report : DoctorReport) : DoctorReport :=
  match ws.checkpoint with
  | none => report
  | some file =>
    match FileCheckpointStore.get ⟨some file, crypto, t.checkpoint⟩ with
    | .error err => report.addWarning ("checkpoint exists but cannot read: " ++ err.display)
    | .ok _ => report

/-- The last part of `run_doctor`. -/
def syncCheck (crypto : Option CryptoEngine) (t : DoctorTurns) (ws : WorkspaceFiles σ)
    (report : DoctorReport) : DoctorOutcome σ :=
  match queueCheck crypto t ws (oplogCheck crypto ws report) with
  | (report, queueCounts, queue) =>
    let report := checkpointCheck crypto t ws report
    { result :=
        if report.hasErrors then
          .error (.error ("rango doctor: " ++ Nat.repr report.errors.length ++
            " workspace incompatibility issues"))
        else .ok ()
      report, queueCounts, files := { ws with queue } }

variable [Formatting] [StorageEngine σ] [MutationHasher] [Arithmetic] [BsonTraits] [SliceSort]
  [KeyDerivation]

/-- `run_doctor`; `path` is the workspace's directory as it is printed. -/
def runDoctor (path : String) (passphrase : Option String) (t : DoctorTurns)
    (ws : WorkspaceFiles σ) : DoctorOutcome σ :=
  let report := DoctorReport.opening path ws.directory
  match loadCrypto ws.salt passphrase with
  | .error err => { result := .error (.error err), report, queueCounts := none, files := ws }
  | .ok crypto =>
    match openPersistentClient crypto t ws with
    | .error err =>
      syncCheck crypto t ws.afterFailedOpen
        (report.addError ("failed to open engine: " ++ err.display))
    | .ok e =>
      match clientChecks t.clocks report e with
      | (.error fault, e) =>
        { result := .error fault, report, queueCounts := none, files := ws.afterClient e }
      | (.ok report, e) => syncCheck crypto t (ws.afterClient e) report

end SyncCheck
end Rango
