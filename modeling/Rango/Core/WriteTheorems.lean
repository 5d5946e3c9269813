import Rango.Core.ApplyTheorems
import Rango.Core.LocalWrites

/-!
# What a local write does

`insert_one`, `update_one` and `delete_one` have one shape, `attempt`: look at the place,
prepare a document and a mutation, put the document, report the mutation to the oplog. Only
the last two steps change anything, and nothing takes the put back when the report fails:
`all_or_nothing_iff` says which calls that harms.
-/

namespace Rango

/-- The readings of a local write. -/
def EngineStep.clock : EngineStep → Option WriteClock
  | .insert _ _ t => some t
  | .update _ _ _ t => some t
  | .delete _ _ t => some t
  | .applyBatch _ _ => none

/-- The collection that a local write is for. -/
def EngineStep.collection : EngineStep → CollectionName
  | .insert c _ _ => c
  | .update c _ _ _ => c
  | .delete c _ _ => c
  | .applyBatch default _ => default

/-- A document to put, and the mutation to report once it is there. -/
structure Write where
  collection : CollectionName
  id : DocumentId
  doc : Document
  mutation : Mutation
  clock : WriteClock

section
variable [Formatting]

/-- The revision that a local write takes. -/
abbrev WriteClock.revision (t : WriteClock) (nodeId : String) : Revision :=
  Revision.new t.revisionMs t.revisionCounter nodeId

/-- The entry that a local write appends. -/
def localEntry (m : Mutation) (t : WriteClock) : OplogEntry where
  seq := 0
  timestamp := t.entryAt
  mutation := m
  origin := .localWrite
  applied := true
  snapshotAnchor := none

namespace RangoEngine

variable {σ ω : Type}

/-! ## The writes -/

omit [Formatting] in
/-- The fields a local write sets are not `_id`. -/
lemma get_stamp (nodeId : String) (rev : Revision) (t : WriteClock) (doc : Document) :
    (stamp nodeId rev t doc).get "_id" = doc.get "_id" := by
  unfold stamp
  rw [Document.get_insert_of_ne _ _ (by decide), Document.get_insert_of_ne _ _ (by decide),
    Document.get_insert_of_ne _ _ (by decide)]

section Writes
variable [MutationHasher]

def insertWrite (e : RangoEngine σ ω) (c : CollectionName) (doc : Document) (t : WriteClock) :
    Write :=
  let id := insertId doc t
  let rev := t.revision e.nodeId
  let doc := (stamp e.nodeId rev t (doc.insert "_id" id.bson)).remove "_deleted"
  ⟨c, id, doc, e.localMutation .insert c id (some doc) rev t, t⟩

def updateWrite (e : RangoEngine σ ω) (c : CollectionName) (id : DocumentId) (doc : Document)
    (t : WriteClock) : Write :=
  let rev := t.revision e.nodeId
  let doc := stamp e.nodeId rev t doc
  ⟨c, id, doc, e.localMutation .update c id (some doc) rev t, t⟩

def deleteWrite (e : RangoEngine σ ω) (c : CollectionName) (id : DocumentId) (doc : Document)
    (t : WriteClock) : Write :=
  let rev := t.revision e.nodeId
  let doc := stamp e.nodeId rev t (doc.insert "_deleted" (.boolean true))
  ⟨c, id, doc, e.localMutation .delete c id none rev t, t⟩

variable [BsonCodec] [Arithmetic]

/-- What a local write decides once it knows what its place holds: to fail, to do nothing, or
to write. -/
def prepare (e : RangoEngine σ ω) (found : Option Document) :
    EngineStep → Except Fault (Option Write)
  | .insert c doc t =>
    match e.validateDocumentSize doc with
    | .error err => .error (.error err)
    | .ok () =>
      match e.validateDocumentSize (e.insertWrite c doc t).doc with
      | .error err => .error (.error err)
      | .ok () => .ok (some (e.insertWrite c doc t))
  | .update c id update t =>
    match found with
    | none => .ok none
    | some doc =>
      if isDeleted doc then .ok none
      else
        match applyUpdate doc update with
        | .error fault => .error fault
        | .ok doc =>
          match e.validateDocumentSize (e.updateWrite c id doc t).doc with
          | .error err => .error (.error err)
          | .ok () => .ok (some (e.updateWrite c id doc t))
  | .delete c id t => .ok (found.map fun doc => e.deleteWrite c id doc t)
  | .applyBatch _ _ => .ok none

end Writes

/-! ## The common shape -/

variable [StorageEngine σ]

/-- What a local write reads before it decides. -/
def look (e : RangoEngine σ ω) :
    EngineStep → Except RangoError (Option Document) × RangoEngine σ ω
  | .update c id _ _ => e.storageGet c id
  | .delete c id _ => e.storageGet c id
  | _ => (.ok none, e)

variable [Oplog ω]

/-- Put the document, then report the mutation. -/
def commit (e : RangoEngine σ ω) (w : Write) : Except RangoError Unit × RangoEngine σ ω :=
  match e.storagePut w.collection w.id w.doc with
  | (.error err, e) => (.error err, e)
  | (.ok (), e) => e.report w.mutation w.clock

omit [Formatting] [StorageEngine σ] in
/-- Appending the mutation leaves everything but the oplog. -/
lemma report_rest (e : RangoEngine σ ω) (m : Mutation) (t : WriteClock) :
    (e.report m t).2 = { e with oplog := (e.report m t).2.oplog } := by
  unfold report
  split
  · rfl
  · split <;> rfl

omit [Formatting] [StorageEngine σ] in
/-- A report appends the entry of a mutation that passes its check. -/
lemma report_eq (e : RangoEngine σ ω) (m : Mutation) (t : WriteClock) :
    e.report m t =
      match m.validateMetadata with
      | .error err => (.error (.storage ("invalid local mutation metadata: " ++ err)), e)
      | .ok () => ((Oplog.append (localEntry m t) e.oplog).1.map fun _ => (),
          { e with oplog := (Oplog.append (localEntry m t) e.oplog).2 }) := by
  unfold report localEntry
  cases m.validateMetadata with
  | error err => rfl
  | ok _ =>
    dsimp only
    split
    · next happ => rw [happ]; rfl
    · next happ => rw [happ]; rfl

variable [BsonCodec] [MutationHasher] [Arithmetic]

/-- A local write, apart from the value it returns. -/
def attempt (e : RangoEngine σ ω) (s : EngineStep) : Except Fault Unit × RangoEngine σ ω :=
  match e.look s with
  | (.error err, e') => (.error (.error err), e')
  | (.ok found, e') =>
    match e.prepare found s with
    | .error fault => (.error fault, e')
    | .ok none => (.ok (), e')
    | .ok (some w) => ((e'.commit w).1.mapError .error, (e'.commit w).2)

/-- Whether the call returns a value. -/
def returns (e : RangoEngine σ ω) : EngineStep → Bool
  | .insert c doc t => (e.insertOne c doc t).1.isOk
  | .update c id update t => (e.updateOne c id update t).1.isOk
  | .delete c id t => (e.deleteOne c id t).1.isOk
  | .applyBatch default mutations => (e.applyMutationsDeterministic default mutations).1.isOk

omit [BsonCodec] [Arithmetic] in
/-- The code builds the mutation once the document is put, and then gives its own answer. -/
lemma commit_end {α β : Type} (fault : RangoError → β) (value : α) (e : RangoEngine σ ω)
    (op : MutationOp) (c : CollectionName) (id : DocumentId) (doc : Document)
    (patch : Option Document) (rev : Revision) (t : WriteClock) :
    let w : Write := ⟨c, id, doc, e.localMutation op c id patch rev t, t⟩
    let r : Except β α × RangoEngine σ ω :=
      match e.storagePut c id doc with
      | (.error err, e) => (.error (fault err), e)
      | (.ok (), e) =>
        match e.report (e.localMutation op c id patch rev t) t with
        | (.error err, e) => (.error (fault err), e)
        | (.ok (), e) => (.ok value, e)
    r.1.isOk = ((e.commit w).1.mapError Fault.error).isOk ∧ r.2 = (e.commit w).2 := by
  dsimp only [commit, storagePut]
  rcases StorageEngine.put c id doc e.storage with ⟨r, s⟩
  cases r with
  | error err => exact ⟨rfl, rfl⟩
  | ok _ =>
    dsimp only
    -- the engine that has put the document builds the same mutation
    rw [show ({ e with storage := s } : RangoEngine σ ω).localMutation op c id patch rev t =
      e.localMutation op c id patch rev t from rfl]
    rcases ({ e with storage := s } : RangoEngine σ ω).report
      (e.localMutation op c id patch rev t) t with ⟨r, e'⟩
    cases r with
    | error err => exact ⟨rfl, rfl⟩
    | ok _ => exact ⟨rfl, rfl⟩

/-- Every local write is an attempt. -/
theorem attempt_eq (e : RangoEngine σ ω) {s : EngineStep} (hs : s.clock.isSome) :
    e.returns s = (e.attempt s).1.isOk ∧ e.step s = (e.attempt s).2 := by
  cases s with
  | applyBatch default mutations => cases hs
  | insert c doc t =>
    simp only [returns, step, attempt, look, prepare]
    unfold insertOne
    cases e.validateDocumentSize doc with
    | error err => exact ⟨rfl, rfl⟩
    | ok _ =>
      dsimp only [insertWrite]
      cases e.validateDocumentSize ((stamp e.nodeId (t.revision e.nodeId) t
        (doc.insert "_id" (insertId doc t).bson)).remove "_deleted") with
      | error err => exact ⟨rfl, rfl⟩
      | ok _ => exact commit_end (fun err => err) (insertId doc t) e _ _ _ _ _ _ _
  | update c id update t =>
    simp only [returns, step, attempt, look, prepare]
    unfold updateOne
    dsimp only [storageGet]
    rcases StorageEngine.get c id e.storage with ⟨r, s⟩
    cases r with
    | error err => exact ⟨rfl, rfl⟩
    | ok found =>
      cases found with
      | none => exact ⟨rfl, rfl⟩
      | some old =>
        dsimp only
        by_cases hdel : isDeleted old = true
        · rw [if_pos hdel, if_pos hdel]
          exact ⟨rfl, rfl⟩
        · rw [if_neg hdel, if_neg hdel]
          cases applyUpdate old update with
          | error fault => exact ⟨rfl, rfl⟩
          | ok new =>
            dsimp only [updateWrite]
            -- the size is checked against the limit of the same configuration
            rw [show ({ e with storage := s } : RangoEngine σ ω).validateDocumentSize =
              e.validateDocumentSize from rfl]
            cases e.validateDocumentSize (stamp e.nodeId (t.revision e.nodeId) t new) with
            | error err => exact ⟨rfl, rfl⟩
            | ok _ => exact commit_end Fault.error true { e with storage := s } _ _ _ _ _ _ _
  | delete c id t =>
    simp only [returns, step, attempt, look, prepare]
    unfold deleteOne
    dsimp only [storageGet]
    rcases StorageEngine.get c id e.storage with ⟨r, s⟩
    cases r with
    | error err => exact ⟨rfl, rfl⟩
    | ok found =>
      cases found with
      | none => exact ⟨rfl, rfl⟩
      | some old => exact commit_end (fun err => err) true { e with storage := s } _ _ _ _ _ _ _

/-- The write that a local write goes for, unless it fails or has nothing to do. -/
def planned (e : RangoEngine σ ω) (s : EngineStep) : Option Write :=
  match (e.look s).1 with
  | .error _ => none
  | .ok found =>
    match e.prepare found s with
    | .error _ => none
    | .ok w => w

/-- An attempt without a planned write is a look. -/
lemma attempt_of_planned_none {e : RangoEngine σ ω} {s : EngineStep} (h : e.planned s = none) :
    (e.attempt s).2 = (e.look s).2 := by
  unfold planned at h
  unfold attempt
  rcases hlook : e.look s with ⟨r, e'⟩
  rw [hlook] at h
  cases r with
  | error err => rfl
  | ok found =>
    dsimp only at h ⊢
    cases hprep : e.prepare found s with
    | error fault => rfl
    | ok w =>
      rw [hprep] at h
      dsimp only at h ⊢
      rw [h]

/-- An attempt with a planned write is a look and a commit. -/
lemma attempt_of_planned {e : RangoEngine σ ω} {s : EngineStep} {w : Write}
    (h : e.planned s = some w) :
    e.attempt s = ((((e.look s).2.commit w).1.mapError .error), ((e.look s).2.commit w).2) := by
  unfold planned at h
  unfold attempt
  rcases hlook : e.look s with ⟨r, e'⟩
  rw [hlook] at h
  cases r with
  | error err => cases h
  | ok found =>
    dsimp only at h ⊢
    cases hprep : e.prepare found s with
    | error fault => rw [hprep] at h; cases h
    | ok w' =>
      rw [hprep] at h
      dsimp only at h ⊢
      rw [h]

end RangoEngine
end

/-! ## What reaches the log -/

section
variable [Formatting] {σ ω : Type} [StorageEngine σ] [BsonCodec] [MutationHasher] [Arithmetic]

namespace RangoEngine

/-- The writes that a local call goes for, given what its place holds. -/
inductive Prepares (e : RangoEngine σ ω) (found : Option Document) : EngineStep → Write → Prop
  | insert (c : CollectionName) (doc : Document) (t : WriteClock) :
      Prepares e found (.insert c doc t) (e.insertWrite c doc t)
  | update {c : CollectionName} {id : DocumentId} {update : Document} {t : WriteClock}
      {old new : Document} (hold : found = some old) (hnew : applyUpdate old update = .ok new) :
      Prepares e found (.update c id update t) (e.updateWrite c id new t)
  | delete {c : CollectionName} {id : DocumentId} {t : WriteClock} {old : Document}
      (hold : found = some old) :
      Prepares e found (.delete c id t) (e.deleteWrite c id old t)

omit [StorageEngine σ] in
lemma prepares_of_prepare {e : RangoEngine σ ω} {found : Option Document} {s : EngineStep}
    {w : Write} (h : e.prepare found s = .ok (some w)) : Prepares e found s w := by
  cases s with
  | applyBatch default mutations => cases Except.ok.inj h
  | insert c doc t =>
    rw [prepare] at h
    split at h
    · cases h
    · split at h
      · cases h
      · rw [← Option.some.inj (Except.ok.inj h)]
        exact .insert c doc t
  | update c id update t =>
    cases found with
    | none => cases Except.ok.inj h
    | some old =>
      rw [prepare] at h
      split_ifs at h
      · cases Except.ok.inj h
      · split at h
        · cases h
        · next new hnew =>
          split at h
          · cases h
          · rw [← Option.some.inj (Except.ok.inj h)]
            exact .update rfl hnew
  | delete c id t =>
    obtain ⟨old, hold, hw⟩ := Option.map_eq_some_iff.mp (Except.ok.inj h)
    rw [← hw]
    exact .delete hold

omit [StorageEngine σ] in
/-- The documents of inserts and updates passed the check of the size. -/
lemma validated_of_prepare {e : RangoEngine σ ω} {found : Option Document} {s : EngineStep}
    {w : Write} (h : e.prepare found s = .ok (some w)) :
    (∃ c id t, s = .delete c id t) ∨ e.validateDocumentSize w.doc = .ok () := by
  cases s with
  | applyBatch default mutations => cases Except.ok.inj h
  | delete c id t => exact .inl ⟨c, id, t, rfl⟩
  | insert c doc t =>
    rw [prepare] at h
    split at h
    · cases h
    · split at h
      · cases h
      · next hvalid =>
        rw [← Option.some.inj (Except.ok.inj h)]
        exact .inr hvalid
  | update c id update t =>
    cases found with
    | none => cases Except.ok.inj h
    | some old =>
      rw [prepare] at h
      split_ifs at h
      · cases Except.ok.inj h
      · split at h
        · cases h
        · split at h
          · cases h
          · next hvalid =>
            rw [← Option.some.inj (Except.ok.inj h)]
            exact .inr hvalid

/-- A planned write was prepared from what the look found. -/
lemma prepares_of_planned {e : RangoEngine σ ω} {s : EngineStep} {w : Write}
    (h : e.planned s = some w) :
    ∃ found, (e.look s).1 = .ok found ∧ Prepares e found s w := by
  unfold planned at h
  split at h
  · cases h
  · next found hfound =>
    refine ⟨found, hfound, ?_⟩
    split at h
    · cases h
    · next hprep => exact prepares_of_prepare (h ▸ hprep)

omit [Formatting] [BsonCodec] [MutationHasher] [Arithmetic] in
/-- A look changes neither the node nor the log. -/
lemma look_frame (e : RangoEngine σ ω) (s : EngineStep) :
    (e.look s).2.oplog = e.oplog ∧ (e.look s).2.nodeId = e.nodeId := by
  cases s <;> exact ⟨rfl, rfl⟩

omit [StorageEngine σ] [BsonCodec] in
/-- The mutation that a local write goes for is one of its own collection. -/
lemma Prepares.mutation {e : RangoEngine σ ω} {found : Option Document} {s : EngineStep}
    {w : Write} (h : Prepares e found s w) :
    ∃ op patch, w.mutation =
      e.localMutation op s.collection w.id patch (w.clock.revision e.nodeId) w.clock := by
  cases h with
  | insert c doc t => exact ⟨.insert, _, rfl⟩
  | update => exact ⟨.update, _, rfl⟩
  | delete => exact ⟨.delete, none, rfl⟩

variable [LogOplog ω]

omit [Formatting] [BsonCodec] [MutationHasher] [Arithmetic] in
/-- A commit appends the entry of its mutation, once that has passed its check, or nothing. -/
lemma commit_logged (e : RangoEngine σ ω) (w : Write) :
    toEntries (e.commit w).2.oplog = toEntries e.oplog ∨
      w.mutation.validateMetadata = .ok () ∧ ∃ seq, toEntries (e.commit w).2.oplog =
        toEntries e.oplog ++ [(localEntry w.mutation w.clock).withSeq seq] := by
  have hlog : (e.storagePut w.collection w.id w.doc).2.oplog = e.oplog := rfl
  unfold commit
  split
  · next heq =>
    rw [heq] at hlog
    exact Or.inl (congrArg toEntries hlog)
  · next e' heq =>
    rw [heq] at hlog
    rw [report_eq]
    cases hvalid : w.mutation.validateMetadata with
    | error err => exact Or.inl (congrArg toEntries hlog)
    | ok =>
      rw [← hlog]
      rcases happend : Oplog.append (localEntry w.mutation w.clock) e'.oplog with ⟨result, oplog⟩
      cases result with
      | error err => exact Or.inl (LogOplog.append_error _ _ _ _ happend)
      | ok seq => exact Or.inr ⟨rfl, seq, LogOplog.append_ok _ _ _ _ happend⟩

/-- What a local write adds to the log: nothing, or one entry, whose valid mutation is one of
its collection. -/
theorem step_logged (e : RangoEngine σ ω) {s : EngineStep} (hs : s.clock.isSome) :
    toEntries (e.step s).oplog = toEntries e.oplog ∨
      ∃ op id patch t seq, let m := e.localMutation op s.collection id patch (t.revision e.nodeId) t
        m.validateMetadata = .ok () ∧
        toEntries (e.step s).oplog = toEntries e.oplog ++ [(localEntry m t).withSeq seq] := by
  obtain ⟨hlog, hnode⟩ := look_frame e s
  rw [(attempt_eq e hs).2]
  cases hplan : e.planned s with
  | none =>
    rw [attempt_of_planned_none hplan, hlog]
    exact Or.inl rfl
  | some w =>
    obtain ⟨found, -, hprepares⟩ := prepares_of_planned hplan
    obtain ⟨op, patch, hmutation⟩ := hprepares.mutation
    rw [attempt_of_planned hplan]
    rcases commit_logged (e.look s).2 w with h | ⟨hvalid, seq, h⟩
    · rw [h, hlog]
      exact Or.inl rfl
    · rw [hlog] at h
      rw [hmutation] at hvalid h
      exact Or.inr ⟨op, w.id, patch, w.clock, seq, hvalid, h⟩

end RangoEngine
end

/-! ## Calls that may fail -/

section
variable [Formatting] {σ ω : Type} [FallibleStorage σ]

namespace RangoEngine

/-- A look changes nothing that a call leaves to be seen. -/
lemma look_stored (e : RangoEngine σ ω) (s : EngineStep) :
    stored (e.look s).2.storage = stored e.storage ∧ (e.look s).2.oplog = e.oplog := by
  cases s with
  | insert c doc t => exact ⟨rfl, rfl⟩
  | update c id update t => exact ⟨(storageGet_stored e c id).1, rfl⟩
  | delete c id t => exact ⟨(storageGet_stored e c id).1, rfl⟩
  | applyBatch default mutations => exact ⟨rfl, rfl⟩

/-- What a commit leaves in the storage. -/
lemma commit_stored [Oplog ω] (e : RangoEngine σ ω) (w : Write) :
    stored (e.commit w).2.storage =
      settle (e.storagePut w.collection w.id w.doc).1 (stored e.storage)
        ((stored e.storage).set w.collection w.id.toString (some w.doc)) := by
  have hstored := storagePut_stored e w.collection w.id w.doc
  unfold commit
  rcases hput : e.storagePut w.collection w.id w.doc with ⟨r, e'⟩
  rw [hput] at hstored
  cases r with
  | error err => exact hstored
  | ok _ =>
    dsimp only at hstored ⊢
    rw [report_rest]
    exact hstored

omit [Formatting] [FallibleStorage σ] in
/-- A commit leaves all but the storage and the oplog. -/
lemma commit_rest [StorageEngine σ] [Oplog ω] (e : RangoEngine σ ω) (w : Write) :
    (e.commit w).2 =
      { e with storage := (e.commit w).2.storage, oplog := (e.commit w).2.oplog } := by
  have hput : (e.storagePut w.collection w.id w.doc).2 =
      { e with storage := (e.storagePut w.collection w.id w.doc).2.storage } := rfl
  unfold commit
  rcases hcall : e.storagePut w.collection w.id w.doc with ⟨r, e'⟩
  rw [hcall] at hput
  dsimp only at hput
  rw [hput]
  cases r with
  | error err => rfl
  | ok _ =>
    dsimp only
    rw [report_rest]

/-- A local write leaves all but the storage and the oplog. -/
lemma step_rest [Oplog ω] [BsonCodec] [MutationHasher] [Arithmetic] (e : RangoEngine σ ω)
    {s : EngineStep} (hs : s.clock.isSome) :
    e.step s = { e with storage := (e.step s).storage, oplog := (e.step s).oplog } := by
  have hlook : (e.look s).2 = { e with storage := (e.look s).2.storage } := by
    cases s <;> rfl
  rw [(attempt_eq e hs).2]
  cases hplan : e.planned s with
  | none =>
    rw [attempt_of_planned_none hplan, hlook]
  | some w =>
    rw [attempt_of_planned hplan, hlook]
    exact commit_rest _ w

/-- A local write leaves the node id and the recorded write ids. -/
lemma step_frame [Oplog ω] [BsonCodec] [MutationHasher] [Arithmetic] (e : RangoEngine σ ω)
    {s : EngineStep} (hs : s.clock.isSome) :
    (e.step s).nodeId = e.nodeId ∧ (e.step s).appliedWriteIds = e.appliedWriteIds := by
  rw [step_rest e hs]
  exact ⟨rfl, rfl⟩

/-- What a local write leaves in the storage. -/
lemma step_stored [Oplog ω] [BsonCodec] [MutationHasher] [Arithmetic] (e : RangoEngine σ ω)
    {s : EngineStep} (hs : s.clock.isSome) :
    stored (e.step s).storage =
      match e.planned s with
      | none => stored e.storage
      | some w => settle ((e.look s).2.storagePut w.collection w.id w.doc).1 (stored e.storage)
          ((stored e.storage).set w.collection w.id.toString (some w.doc)) := by
  rw [(attempt_eq e hs).2]
  cases hplan : e.planned s with
  | none => rw [attempt_of_planned_none hplan, (look_stored e s).1]
  | some w => rw [attempt_of_planned hplan, commit_stored, (look_stored e s).1]

/-! ## All or nothing -/

variable [LogOplog ω]

/-- The write's mutation passes its check, and the oplog takes the entry. -/
def Loggable (e : RangoEngine σ ω) (w : Write) : Prop :=
  w.mutation.validateMetadata = .ok () ∧
    ∃ n, (Oplog.append (localEntry w.mutation w.clock) e.oplog).1 = .ok n

omit [Formatting] [FallibleStorage σ] in
/-- A report that succeeds was loggable, and one that fails leaves the log alone. -/
lemma report_spec (e : RangoEngine σ ω) (w : Write) :
    ((e.report w.mutation w.clock).1 = .ok () ↔ e.Loggable w) ∧
      ((e.report w.mutation w.clock).1 ≠ .ok () →
        toEntries (e.report w.mutation w.clock).2.oplog = toEntries e.oplog) := by
  rw [report_eq, Loggable]
  cases hval : w.mutation.validateMetadata with
  | error err => simp
  | ok _ =>
    rcases happ : Oplog.append (localEntry w.mutation w.clock) e.oplog with ⟨r, o⟩
    cases r with
    | error err =>
      have hkept := LogOplog.append_error _ _ _ _ happ
      simpa [Except.map] using hkept
    | ok n => simp [Except.map]

/-- The call left the documents and the log as they were. -/
def Untouched (e e' : RangoEngine σ ω) : Prop :=
  stored e'.storage = stored e.storage ∧ toEntries e'.oplog = toEntries e.oplog

/-- What a commit leaves when it fails. -/
lemma commit_spec (e : RangoEngine σ ω) (w : Write) :
    ((e.commit w).1 = .ok () ↔
      (e.storagePut w.collection w.id w.doc).1 = .ok () ∧ e.Loggable w) ∧
    ((e.commit w).1 ≠ .ok () → toEntries (e.commit w).2.oplog = toEntries e.oplog ∧
      stored (e.commit w).2.storage =
        settle (e.storagePut w.collection w.id w.doc).1 (stored e.storage)
          ((stored e.storage).set w.collection w.id.toString (some w.doc))) := by
  suffices h : ((e.commit w).1 = .ok () ↔
      (e.storagePut w.collection w.id w.doc).1 = .ok () ∧ e.Loggable w) ∧
      ((e.commit w).1 ≠ .ok () → toEntries (e.commit w).2.oplog = toEntries e.oplog) from
    ⟨h.1, fun hne => ⟨h.2 hne, commit_stored e w⟩⟩
  have hlog : (e.storagePut w.collection w.id w.doc).2.oplog = e.oplog := rfl
  unfold commit
  rcases hput : e.storagePut w.collection w.id w.doc with ⟨r, e'⟩
  rw [hput] at hlog
  cases r with
  | error err => exact ⟨by simp, fun _ => congrArg toEntries hlog⟩
  | ok _ =>
    obtain ⟨hiff, hkept⟩ := report_spec e' w
    dsimp only at hlog ⊢
    have hsame : e'.Loggable w ↔ e.Loggable w := by
      unfold Loggable
      rw [hlog]
    refine ⟨?_, fun hne => ?_⟩
    · rw [hiff, hsame]
      simp
    · rw [hkept hne, hlog]

/-- What a commit leaves when it succeeds. -/
lemma commit_ok {e : RangoEngine σ ω} {w : Write} (h : (e.commit w).1 = .ok ()) :
    w.mutation.validateMetadata = .ok () ∧ (e.commit w).2.nodeId = e.nodeId ∧
      stored (e.commit w).2.storage =
        (stored e.storage).set w.collection w.id.toString (some w.doc) ∧
      ∃ n, Oplog.append (localEntry w.mutation w.clock) e.oplog =
        (.ok n, (e.commit w).2.oplog) := by
  obtain ⟨hput, hval, -⟩ := (commit_spec e w).1.mp h
  have hstored := storagePut_stored e w.collection w.id w.doc
  rw [hput] at hstored
  unfold commit at h ⊢
  rcases hput' : e.storagePut w.collection w.id w.doc with ⟨r, e'⟩
  have hlog : e'.oplog = e.oplog ∧ e'.nodeId = e.nodeId := by
    rw [← show (e.storagePut w.collection w.id w.doc).2 = e' by rw [hput']]
    exact ⟨rfl, rfl⟩
  rw [hput'] at hput hstored h
  dsimp only at hput hstored h ⊢
  rw [hput] at h ⊢
  dsimp only at h ⊢
  rw [report_eq, hval] at h ⊢
  rw [← hlog.1]
  rcases happ : Oplog.append (localEntry w.mutation w.clock) e'.oplog with ⟨r, o⟩
  rw [happ] at h
  cases r with
  | error err => cases h
  | ok n => exact ⟨rfl, hlog.2, hstored, n, rfl⟩

variable [BsonCodec] [MutationHasher] [Arithmetic]

/-- **All or nothing.** A local write that fails leaves the documents and the log as they were,
exactly when it does not get to put a document whose mutation cannot be logged, unless that
very document is stored already. -/
theorem all_or_nothing_iff (e : RangoEngine σ ω) {s : EngineStep} (hs : s.clock.isSome) :
    (e.returns s = false → Untouched e (e.step s)) ↔
      ∀ w ∈ e.planned s, ((e.look s).2.storagePut w.collection w.id w.doc).1 = .ok () →
        e.Loggable w ∨ stored e.storage w.collection w.id.toString = some w.doc := by
  obtain ⟨hreturns, hstep⟩ := attempt_eq e hs
  obtain ⟨hlook, hlooklog⟩ := look_stored e s
  rw [hreturns, hstep]
  cases hplan : e.planned s with
  | none =>
    have huntouched : Untouched e (e.attempt s).2 := by
      rw [attempt_of_planned_none hplan]
      exact ⟨hlook, congrArg toEntries hlooklog⟩
    exact iff_of_true (fun _ => huntouched) fun w hw => nomatch hw
  | some w =>
    set e' := (e.look s).2 with he'
    obtain ⟨hok, hfail⟩ := commit_spec e' w
    have hloggable : e'.Loggable w ↔ e.Loggable w := by
      unfold Loggable
      rw [hlooklog]
    rw [hlook, hlooklog] at hfail
    rw [attempt_of_planned hplan]
    have hfails : ((e'.commit w).1.mapError Fault.error).isOk = false ↔
        (e'.commit w).1 ≠ .ok () := by
      cases (e'.commit w).1 <;> simp [Except.mapError, Except.isOk, Except.toBool]
    rw [hfails]
    constructor
    · intro h w' hw' hput
      obtain rfl : w = w' := Option.some.inj hw'
      by_cases hlog : e.Loggable w
      · exact Or.inl hlog
      · refine Or.inr ?_
        have hne : (e'.commit w).1 ≠ .ok () := fun hc => hlog (hloggable.mp (hok.mp hc).2)
        have hsame := (h hne).1
        rw [(hfail hne).2, hput] at hsame
        have hplace := congrFun (congrFun hsame w.collection) w.id.toString
        rw [← hplace]
        exact DocMap.set_self _ _ _ _
    · intro h hne
      refine ⟨?_, (hfail hne).1⟩
      rw [(hfail hne).2]
      cases hput : (e'.storagePut w.collection w.id w.doc).1 with
      | error err => rfl
      | ok _ =>
        -- the document was put and not logged, so it was there before
        have hnot : ¬ e.Loggable w := fun hl => hne (hok.mpr ⟨hput, hloggable.mpr hl⟩)
        have hthere := (h w rfl hput).resolve_left hnot
        show (stored e.storage).set w.collection w.id.toString (some w.doc) = stored e.storage
        rw [← hthere, DocMap.set_get]

end RangoEngine
end

/-! ## A worked example -/

/-- The readings of a clock that shows `ms` milliseconds. -/
def WriteClock.sample (ms counter : ℕ) : WriteClock where
  uuid := []
  revisionMs := ms
  revisionCounter := counter
  docUpdatedAt := ms
  mutationAt := ms
  createdAt := ms
  updatedAt := ms
  entryAt := ms

section
attribute [local instance] Formatting.sample MutationHasher.sample Arithmetic.sample

/-- A newly opened node with an oplog. -/
def sampleWriter : RangoEngine MemoryStorage MemLog :=
  .openEngine MemoryStorage.new MemLog.new "a"

/-- The document to insert. -/
def sampleDoc : Document := ⟨[("_id", .string "d")]⟩

/-- The document as the first insert of a node stores it. -/
def sampleStored : Document :=
  (sampleWriter.insertWrite ⟨"c"⟩ sampleDoc (.sample 1 0)).doc

/-- A codec that knows the two. -/
@[reducible] def sampleWriteCodec : BsonCodec := .ofTable [] [sampleDoc, sampleStored]

attribute [local instance] sampleWriteCodec

/-- For an insert into collection `"c"`. -/
theorem RangoEngine.all_or_nothing_iff_insert :
    (sampleWriter.returns (.insert ⟨"c"⟩ sampleDoc (.sample 1 0)) = false →
      Untouched sampleWriter (sampleWriter.step (.insert ⟨"c"⟩ sampleDoc (.sample 1 0)))) ↔
    ∀ w ∈ sampleWriter.planned (.insert ⟨"c"⟩ sampleDoc (.sample 1 0)),
      ((sampleWriter.look (.insert ⟨"c"⟩ sampleDoc (.sample 1 0))).2.storagePut w.collection w.id
        w.doc).1 = .ok () →
      sampleWriter.Loggable w ∨
        stored sampleWriter.storage w.collection w.id.toString = some w.doc :=
  all_or_nothing_iff sampleWriter rfl

/-- An insert into a collection without a name: the call fails, the document stays and the log
knows nothing of it. -/
theorem unlogged_insert_stays :
    (sampleWriter.insertOne ⟨""⟩ sampleDoc (.sample 1 0)).1 =
        .error (.storage "invalid local mutation metadata: namespace must be non-empty") ∧
      stored sampleWriter.storage ⟨""⟩ "\"d\"" = none ∧
      stored (sampleWriter.insertOne ⟨""⟩ sampleDoc (.sample 1 0)).2.storage ⟨""⟩ "\"d\"" =
        some sampleStored ∧
      toEntries (sampleWriter.insertOne ⟨""⟩ sampleDoc (.sample 1 0)).2.oplog = [] := by
  refine ⟨?_, ?_, ?_, ?_⟩
  · decide +kernel
  · decide +kernel
  · decide +kernel
  · decide +kernel

end
end Rango
