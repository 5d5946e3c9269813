import Mathlib.Data.List.Permutation
import Rango.Lib.ReadModifyWrite
import Rango.Core.Atomic

/-!
# Lost updates

Several `update_one` calls on one document run interleaved. Each is a read and a later write of the
document (`Simulates`), so as long as no call puts its document after another one has put since it
read, the outcome is that of the calls one after the other. Two calls that both read before either
writes lose one of the updates (`update_lost`).
-/

namespace Rango

open Interleaving ReadModifyWrite

/-- An `update_one` call on a given document. -/
structure UpdateCall where
  update : Document
  clock : WriteClock

/-- The call as a step of an engine. -/
def UpdateCall.step (u : UpdateCall) (c : CollectionName) (id : DocumentId) : EngineStep :=
  .update c id u.update u.clock

namespace RangoEngine

section
variable {σ ω : Type} [Formatting] [Arithmetic]

/-- What the call makes of a document. -/
def written (e : RangoEngine σ ω) (u : UpdateCall) (doc : Document) : Document :=
  match applyUpdate doc u.update with
  | .ok new => stamp e.nodeId (u.clock.revision e.nodeId) u.clock new
  | .error _ => doc

/-- The call gets as far as to put a document. -/
def Commits [BsonCodec] (e : RangoEngine σ ω) (u : UpdateCall) (doc : Document) : Prop :=
  isDeleted doc = false ∧ (∃ new, applyUpdate doc u.update = .ok new) ∧
    e.validateDocumentSize (e.written u doc) = .ok ()

/-! ## The programs of the calls -/

section
variable [BsonCodec] [MutationHasher] {e : RangoEngine σ ω} {c : CollectionName}
  {id : DocumentId} {u : UpdateCall}

/-- A call that has read a document gives up or goes on to put the new one. -/
lemma foundSteps_cases (e : RangoEngine σ ω) (c : CollectionName) (id : DocumentId)
    (u : UpdateCall) (old : Document) :
    (∃ r, e.foundSteps c id old u.update u.clock = .done r ∧ r ≠ .ok true) ∨
      e.Commits u old ∧ e.foundSteps c id old u.update u.clock =
        e.commitSteps c id (u.clock.revision e.nodeId) (e.written u old) u.clock := by
  unfold foundSteps
  cases hdel : isDeleted old with
  | true => exact .inl ⟨.ok false, rfl, by simp⟩
  | false =>
    rw [if_neg (by simp)]
    cases hnew : applyUpdate old u.update with
    | error fault => exact .inl ⟨.error fault, rfl, by simp⟩
    | ok new =>
      have hwritten : e.written u old =
          stamp e.nodeId (u.clock.revision e.nodeId) u.clock new := by
        rw [written, hnew]
      dsimp only
      cases hsize : e.validateDocumentSize (e.written u old) with
      | error err =>
        rw [hwritten] at hsize
        rw [hsize]
        exact .inl ⟨.error (.error err), rfl, by simp⟩
      | ok _ =>
        refine .inr ⟨⟨hdel, ⟨new, hnew⟩, hsize⟩, ?_⟩
        rw [hwritten] at hsize ⊢
        rw [hsize]

/-- At most an append to the oplog is left. -/
def Ending {α : Type} : EngineProg α → Prop
  | .done _ => True
  | .call (.append _) next => ∀ r, ∃ a, next r = .done a
  | .call _ _ => False

omit [Formatting] [Arithmetic] [BsonCodec] [MutationHasher] in
lemma reportSteps_ending {α : Type} (m : Mutation) (t : WriteClock)
    {f : Except RangoError Unit → EngineProg α} (hf : ∀ r, ∃ a, f r = .done a) :
    Ending (reportSteps m t >>= f) := by
  unfold reportSteps
  cases m.validateMetadata with
  | error err =>
    obtain ⟨a, ha⟩ := hf (.error (.storage ("invalid local mutation metadata: " ++ err)))
    show Ending (f _)
    rw [ha]
    trivial
  | ok _ =>
    rintro (err | seq)
    · exact hf (.error err)
    · exact hf (.ok ())

/-- Where a call stands, with the document that it has read. -/
def Stands (e : RangoEngine σ ω) (c : CollectionName) (id : DocumentId) (u : UpdateCall)
    (turn : ReadModifyWrite.Turn) (held : Document) (p : EngineProg (Except Fault Bool)) : Prop :=
  match turn with
  | .fresh => p = e.updateOneSteps c id u.update u.clock
  | .reading _ => e.Commits u held ∧
    p = e.commitSteps c id (u.clock.revision e.nodeId) (e.written u held) u.clock
  | .done => Ending p

/-- A call stands where it did when another one has written. -/
lemma Stands.disturb {turn : ReadModifyWrite.Turn} {held : Document}
    {p : EngineProg (Except Fault Bool)} (h : e.Stands c id u turn held p) :
    e.Stands c id u turn.disturb held p := by
  cases turn with
  | fresh => exact h
  | reading b => exact h
  | done => exact h

end
end

/-! ## Calls on one engine -/

section
variable {σ ω ι : Type} [Formatting] [Arithmetic] [BsonCodec] [MutationHasher]

/-- The calls on an engine, before any of them has moved. -/
def updatePool (e : RangoEngine σ ω) (c : CollectionName) (id : DocumentId)
    (calls : ι → UpdateCall) :
    Pool (RangoEngine σ ω) EngineOp.Res fun _ : ι => Except Fault Bool :=
  ⟨e, fun i => e.updateOneSteps c id (calls i).update (calls i).clock⟩

/-- No call has returned anything but `Ok(true)`. -/
def Unfailed (pool : Pool (RangoEngine σ ω) EngineOp.Res fun _ : ι => Except Fault Bool) : Prop :=
  ∀ i r, pool.threads i = .done r → r = .ok true

variable [DecidableEq ι] [MapStorage σ] [Oplog ω]

/-- The calls are readers and writers of the document. -/
structure Simulates (e : RangoEngine σ ω) (c : CollectionName) (id : DocumentId)
    (calls : ι → UpdateCall)
    (pool : Pool (RangoEngine σ ω) EngineOp.Res fun _ : ι => Except Fault Bool)
    (cell : Cell ι Document) : Prop where
  document : docMap pool.shared.storage c id.toString = some cell.value
  stands : ∀ i, e.Stands c id (calls i) (cell.turns i) (cell.held i) (pool.threads i)

variable {e : RangoEngine σ ω} {c : CollectionName} {id : DocumentId} {calls : ι → UpdateCall}
  {pool : Pool (RangoEngine σ ω) EngineOp.Res fun _ : ι => Except Fault Bool}
  {cell : Cell ι Document} {i : ι}

/-- The first move of a call reads the document. -/
lemma Simulates.read (h : Simulates e c id calls pool cell) (hi : cell.turns i = .fresh)
    (hok : Unfailed (pool.step perform i)) :
    Simulates e c id calls (pool.step perform i) (cell.move (fun i => e.written (calls i)) i) := by
  have hthread : pool.threads i = e.updateOneSteps c id (calls i).update (calls i).clock := by
    have hstands := h.stands i
    rwa [hi] at hstands
  have hget : pool.shared.perform (.get c id) = (.ok (some cell.value), pool.shared) := by
    show ((StorageEngine.get c id pool.shared.storage).1, _) = _
    rw [storage_get_eq, h.document]
  have hstep : pool.step perform i = ⟨pool.shared, Function.update pool.threads i
      (e.foundSteps c id cell.value (calls i).update (calls i).clock)⟩ := by
    rw [Pool.step_call perform hthread, hget]
    rfl
  rw [hstep] at hok ⊢
  rw [Cell.move_fresh hi, advance_fresh hi]
  refine ⟨h.document, fun j => ?_⟩
  show e.Stands c id (calls j) (Function.update cell.turns i (.reading false) j)
    (Function.update cell.held i cell.value j) (Function.update pool.threads i _ j)
  by_cases hj : j = i
  · subst hj
    rw [Function.update_self, Function.update_self, Function.update_self]
    -- a call that gives up at the document does not return `Ok(true)`
    rcases foundSteps_cases e c id (calls j) cell.value with ⟨r, hdone, hr⟩ | ⟨hcommits, hsteps⟩
    · exact absurd (hok j r ((Function.update_self ..).trans hdone)) hr
    · exact ⟨hcommits, hsteps⟩
  · rw [Function.update_of_ne hj, Function.update_of_ne hj, Function.update_of_ne hj]
    exact h.stands j

/-- Its second move puts what it makes of the document it has read. -/
lemma Simulates.write (h : Simulates e c id calls pool cell) {b : Bool}
    (hi : cell.turns i = .reading b) :
    Simulates e c id calls (pool.step perform i) (cell.move (fun i => e.written (calls i)) i) := by
  have hthread := h.stands i
  rw [hi] at hthread
  have hsteps : pool.threads i = e.commitSteps c id ((calls i).clock.revision e.nodeId)
      (e.written (calls i) (cell.held i)) (calls i).clock := hthread.2
  obtain ⟨s, hput, hdocs⟩ := storage_put_eq c id (e.written (calls i) (cell.held i))
    pool.shared.storage
  have hperform : pool.shared.perform (.put c id (e.written (calls i) (cell.held i))) =
      (.ok (), { pool.shared with storage := s }) := by
    show ((StorageEngine.put c id _ pool.shared.storage).1, _) = _
    rw [hput]
  rw [Pool.step_call perform hsteps, hperform, Cell.move_reading hi, advance_reading hi]
  refine ⟨?_, fun j => ?_⟩
  · show docMap s c id.toString = some (e.written (calls i) (cell.held i))
    rw [hdocs, DocMap.set_self]
  · show e.Stands c id (calls j) (Function.update (fun j => (cell.turns j).disturb) i .done j)
      (cell.held j) (Function.update pool.threads i _ j)
    by_cases hj : j = i
    · subst hj
      rw [Function.update_self, Function.update_self]
      refine reportSteps_ending _ _ ?_
      rintro (err | _)
      · exact ⟨_, rfl⟩
      · exact ⟨_, rfl⟩
    · rw [Function.update_of_ne hj, Function.update_of_ne hj]
      exact (h.stands j).disturb

/-- What comes behind the put leaves the document. -/
lemma Simulates.finish (h : Simulates e c id calls pool cell) (hi : cell.turns i = .done) :
    Simulates e c id calls (pool.step perform i) cell := by
  have hthread := h.stands i
  rw [hi] at hthread
  have hending : Ending (pool.threads i) := hthread
  cases hp : pool.threads i with
  | done r =>
    rw [Pool.step_done perform hp]
    exact h
  | call o next =>
    rw [hp] at hending
    cases o with
    | get c' id' => exact hending.elim
    | put c' id' doc' => exact hending.elim
    | append entry =>
      rw [Pool.step_call perform hp]
      refine ⟨h.document, fun j => ?_⟩
      show e.Stands c id (calls j) (cell.turns j) (cell.held j)
        (Function.update pool.threads i _ j)
      by_cases hj : j = i
      · subst hj
        obtain ⟨r, hr⟩ := hending (pool.shared.perform (.append entry)).1
        rw [Function.update_self, hi, hr]
        trivial
      · rw [Function.update_of_ne hj]
        exact h.stands j

/-- **One move.** -/
theorem Simulates.step (h : Simulates e c id calls pool cell) (i : ι)
    (hok : Unfailed (pool.step perform i)) :
    Simulates e c id calls (pool.step perform i) (cell.move (fun i => e.written (calls i)) i) := by
  cases hi : cell.turns i with
  | fresh => exact h.read hi hok
  | reading b => exact h.write hi
  | done =>
    rw [Cell.move_done hi]
    exact h.finish hi

omit [Arithmetic] [BsonCodec] [MutationHasher] in
lemma unfailed_of_exec {schedule : List ι} (h : Unfailed (pool.exec perform schedule)) :
    Unfailed pool := fun i r hr => h i r (Pool.exec_keeps_done perform hr schedule)

/-- **Runs.** As long as no call fails, the calls are readers and writers of the document. -/
theorem Simulates.run (h : Simulates e c id calls pool cell) {schedule : List ι}
    (hok : Unfailed (pool.exec perform schedule)) :
    Simulates e c id calls (pool.exec perform schedule)
      (schedule.foldl (Cell.move fun i => e.written (calls i)) cell) := by
  induction schedule generalizing pool cell with
  | nil => exact h
  | cons i rest ih => exact ih (h.step i (unfailed_of_exec hok)) hok

/-- A call that puts a document was ready to when it had read. -/
lemma Simulates.commits (h : Simulates e c id calls pool cell) {schedule : List ι}
    (hok : Unfailed (pool.exec perform schedule)) :
    Runs.All (Cell.move fun i => e.written (calls i))
      (fun s i => ∀ b, s.turns i = .reading b → e.Commits (calls i) (s.held i)) cell schedule := by
  induction schedule generalizing pool cell with
  | nil => trivial
  | cons i rest ih =>
    refine ⟨fun b hi => ?_, ih (h.step i (unfailed_of_exec hok)) hok⟩
    have hstands := h.stands i
    rw [hi] at hstands
    exact hstands.1

omit [DecidableEq ι] [Oplog ω] in
/-- When all calls have returned, all have written. -/
lemma Simulates.done (h : Simulates e c id calls pool cell)
    (hall : ∀ i, pool.threads i = .done (.ok true)) (i : ι) : cell.turns i = .done := by
  have hstands := h.stands i
  rw [hall i] at hstands
  cases hi : cell.turns i with
  | done => rfl
  | fresh =>
    rw [hi] at hstands
    cases (hstands : Prog.done _ = e.updateOneSteps c id _ _)
  | reading b =>
    rw [hi] at hstands
    cases (hstands.2 : Prog.done _ = e.commitSteps c id _ _ _)

/-! ## One after the other -/

variable {u : UpdateCall} {e' : RangoEngine σ ω} {doc : Document}

omit [DecidableEq ι] in
/-- A call by itself. -/
lemma step_commits (hnode : e'.nodeId = e.nodeId) (hconfig : e'.config = e.config)
    (hdoc : docMap e'.storage c id.toString = some doc) (hcommits : e.Commits u doc) :
    docMap (e'.step (u.step c id)).storage c id.toString = some (e.written u doc) := by
  -- what the call read concurrently it finds again, so it gets as far
  obtain ⟨hlive, ⟨new, hnew⟩, hsize⟩ := hcommits
  have hwritten : e.written u doc = stamp e'.nodeId (u.clock.revision e'.nodeId) u.clock new := by
    rw [written, hnew, hnode]
  have hsize' : e'.validateDocumentSize (e'.updateWrite c id new u.clock).doc = .ok () := by
    rw [validateDocumentSize] at hsize ⊢
    rw [hconfig]
    rwa [hwritten] at hsize
  have hplanned : e'.planned (u.step c id) = some (e'.updateWrite c id new u.clock) := by
    have hget : (e'.look (u.step c id)).1 = .ok (some doc) := by
      show (StorageEngine.get c id e'.storage).1 = _
      rw [storage_get_eq, hdoc]
    have hprepare : e'.prepare (some doc) (u.step c id) =
        .ok (some (e'.updateWrite c id new u.clock)) := by
      show (if isDeleted doc then _ else _) = _
      rw [if_neg (by simp [hlive]), hnew]
      dsimp only
      rw [hsize']
    rw [planned, hget]
    dsimp only
    rw [hprepare]
  have hstored := step_stored e' (s := u.step c id) rfl
  rw [hplanned] at hstored
  have hput : ((e'.look (u.step c id)).2.storagePut c id
      (e'.updateWrite c id new u.clock).doc).1 = .ok () := by
    obtain ⟨s, hput, -⟩ := storage_put_eq c id (e'.updateWrite c id new u.clock).doc
      (e'.look (u.step c id)).2.storage
    exact congrArg Prod.fst hput
  have hset := hstored.trans (congrArg (settle · _ _) hput)
  show stored (e'.step (u.step c id)).storage c id.toString = _
  rw [hset, hwritten]
  exact DocMap.set_self ..

omit [DecidableEq ι] in
/-- The calls one after the other. -/
lemma run_commits {order : List ι} (hnode : e'.nodeId = e.nodeId) (hconfig : e'.config = e.config)
    (hdoc : docMap e'.storage c id.toString = some doc)
    (hall : Runs.All (fun d i => e.written (calls i) d) (fun d i => e.Commits (calls i) d) doc
      order) :
    docMap (e'.run (order.map fun i => (calls i).step c id)).storage c id.toString =
      some (order.foldl (fun d i => e.written (calls i) d) doc) := by
  induction order generalizing e' doc with
  | nil => exact hdoc
  | cons i rest ih =>
    have hrest := step_rest e' (s := (calls i).step c id) rfl
    have hnode' : (e'.step ((calls i).step c id)).nodeId = e.nodeId := by
      rw [hrest]
      exact hnode
    have hconfig' : (e'.step ((calls i).step c id)).config = e.config := by
      rw [hrest]
      exact hconfig
    exact ih hnode' hconfig' (step_commits hnode hconfig hdoc hall.1) hall.2

/-! ## Increments -/

section
variable {field : String} {n : ℤ}

/-- The integer in a field. -/
def count (field : String) (doc : Document) : ℤ := (doc.getI64 field).getD 0

omit [DecidableEq ι] [MapStorage σ] [Oplog ω] [BsonCodec] [MutationHasher] in
/-- An increment of an integer that has room. -/
lemma written_increment (hfield : field ∉ stampedFields)
    (hupdate : u.update = incUpdate field (.int64 1)) (hget : doc.get field = some (.int64 n))
    (hfits : Fits true (n + 1)) : (e.written u doc).get field = some (.int64 (n + 1)) := by
  have hinc : applyUpdate doc u.update = .ok (doc.insert field (.int64 (n + 1))) := by
    have hsame := applyInc_same (b := 1) (show doc.get field = some (intBson true n) from hget)
    rw [addSigned_of_fits hfits] at hsame
    rw [hupdate, applyUpdate_inc]
    exact hsame
  rw [written, hinc]
  dsimp only
  rw [get_stamp_of_not_mem hfield, Document.get_insert_self]

omit [DecidableEq ι] [MapStorage σ] [Oplog ω] [BsonCodec] [MutationHasher] in
/-- Increments of a field, of any document that holds an integer with room in it. -/
lemma written_counts [Fintype ι] (hfield : field ∉ stampedFields)
    (hinc : ∀ i, (calls i).update = incUpdate field (.int64 1))
    (hroom : Fits true (n + Fintype.card ι)) (i : ι) (d : Document)
    (hd : ∃ z, d.get field = some (.int64 z) ∧ -2 ^ 63 ≤ z)
    (hcount : count field d < n + Fintype.card ι) :
    (∃ z, (e.written (calls i) d).get field = some (.int64 z) ∧ -2 ^ 63 ≤ z) ∧
      count field (e.written (calls i) d) = count field d + 1 := by
  obtain ⟨z, hz, hlow⟩ := hd
  have hz' : count field d = z := by simp [count, Document.getI64, hz]
  have hfits : Fits true (z + 1) := by
    have hhigh : n + (Fintype.card ι : ℤ) < 2 ^ 63 := hroom.2
    exact ⟨by omega, by omega⟩
  have hnext := written_increment (e := e) hfield (hinc i) hz hfits
  refine ⟨⟨z + 1, hnext, by omega⟩, ?_⟩
  rw [hz']
  simp [count, Document.getI64, hnext]

end

/-! ## Concurrent calls -/

/-- The fields that an update may set agree. -/
def UserFieldsAgree (found found' : Option Document) : Prop :=
  ∀ field, field ∉ stampedFields →
    found.bind (fun d => d.get field) = found'.bind fun d => d.get field

/-- **Updates are kept.** Calls on one live document run interleaved and all return `Ok(true)`. When
none of them puts after another one has put since it read, the fields are those that the calls
give one after the other, in some order. When each of them increments a field by one, the field
is raised by their number exactly in that case. -/
theorem concurrent_updates_kept [Fintype ι] (hdoc : docMap e.storage c id.toString = some doc)
    {schedule : List ι}
    (hall : ∀ i, ((updatePool e c id calls).exec perform schedule).threads i =
      .done (.ok true)) :
    (ReadModifyWrite.Undisturbed schedule → ∃ order : List ι, order.Nodup ∧ (∀ i, i ∈ order) ∧
      UserFieldsAgree
        (docMap ((updatePool e c id calls).exec perform schedule).shared.storage c id.toString)
        (docMap (e.run (order.map fun i => (calls i).step c id)).storage c id.toString)) ∧
    ∀ field n, field ∉ stampedFields → doc.get field = some (.int64 n) → Fits true n →
      Fits true (n + Fintype.card ι) → (∀ i, (calls i).update = incUpdate field (.int64 1)) →
      ((docMap ((updatePool e c id calls).exec perform schedule).shared.storage c
          id.toString).bind (fun d => d.get field) = some (.int64 (n + Fintype.card ι)) ↔
        ReadModifyWrite.Undisturbed schedule) := by
  have hstart : Simulates e c id calls (updatePool e c id calls) (Cell.start doc) :=
    ⟨hdoc, fun i => rfl⟩
  have hok : Unfailed ((updatePool e c id calls).exec perform schedule) := by
    intro i r hr
    rw [hall i] at hr
    cases hr
    rfl
  have hend := hstart.run hok
  have hrecorded := Cell.run_recorded (fun i => e.written (calls i)) doc schedule
  have hdone := hend.done hall
  constructor
  · -- the order is that of the puts
    intro hcalm
    have hserial := Cell.run_serial hcalm (hstart.commits hok)
    refine ⟨_, hrecorded.nodup, fun i => (hrecorded.mem_iff i).mpr (hdone i), fun field _ => ?_⟩
    rw [run_commits rfl rfl hdoc hserial.all, ← hserial.value_eq, hend.document]
  · intro field n hfield hn hfits hroom hinc
    have hcount : count field doc = n := by simp [count, Document.getI64, hn]
    have hstep := written_counts (e := e) hfield hinc hroom
    obtain ⟨z, hz, -⟩ := (Cell.run_bounded hstep ⟨n, hn, hfits.1⟩ hcount schedule).value_prop
    rw [← Cell.count_iff hstep ⟨n, hn, hfits.1⟩ hcount schedule, hrecorded.length_eq hdone,
      hend.document]
    simp [count, Document.getI64, hz]

end

/-! ## Two increments -/

section
attribute [local instance] Formatting.sample MutationHasher.sample Arithmetic.sample lenientCodec

/-- A document with an `Int64`. -/
def sampleTally : Document := ⟨[("_id", .string "d"), ("n", .int64 0)]⟩

/-- Two increments by one. -/
def sampleIncrements (i : Fin 2) : UpdateCall := ⟨incUpdate "n" (.int64 1), .sample (i + 1) 0⟩

/-- What the two calls leave, moving in this order. -/
def sampleRace (schedule : List (Fin 2)) :
    Pool (RangoEngine MemoryStorage NullOplog) EngineOp.Res fun _ : Fin 2 => Except Fault Bool :=
  ((holding sampleTally).updatePool ⟨"c"⟩ ⟨.string "d"⟩ sampleIncrements).exec perform schedule

/-- One after the other, they count. -/
theorem concurrent_updates_kept_increments :
    (docMap (sampleRace [0, 0, 0, 1, 1, 1]).shared.storage ⟨"c"⟩ "\"d\"").bind
      (fun d => d.get "n") = some (.int64 2) := by
  have hall : ∀ i : Fin 2, (sampleRace [0, 0, 0, 1, 1, 1]).threads i = .done (.ok true) :=
    fun i => Prog.result_eq_some.mp (by revert i; decide +kernel)
  have hdoc : docMap (holding sampleTally).storage ⟨"c"⟩ (DocumentId.toString ⟨.string "d"⟩) =
      some sampleTally := holding_stored sampleTally
  have hiff := (concurrent_updates_kept hdoc hall).2 "n" 0 (by decide) rfl (by decide) (by decide)
    fun _ => rfl
  exact hiff.mpr (by decide)

/-- Both read before either writes: both return `Ok(true)`, and one increment is lost. -/
theorem update_lost :
    (∀ i : Fin 2, (sampleRace [0, 1, 0, 1, 0, 1]).threads i = .done (.ok true)) ∧
      (docMap (sampleRace [0, 1, 0, 1, 0, 1]).shared.storage ⟨"c"⟩ "\"d\"").bind
        (fun d => d.get "n") = some (.int64 1) ∧
      ∀ order : List (Fin 2), order.Nodup → (∀ i, i ∈ order) → ¬UserFieldsAgree
        (docMap (sampleRace [0, 1, 0, 1, 0, 1]).shared.storage ⟨"c"⟩ "\"d\"")
        (docMap ((holding sampleTally).run
          (order.map fun i => (sampleIncrements i).step ⟨"c"⟩ ⟨.string "d"⟩)).storage
          ⟨"c"⟩ "\"d\"") := by
  have hone : (docMap (sampleRace [0, 1, 0, 1, 0, 1]).shared.storage ⟨"c"⟩ "\"d\"").bind
      (fun d => d.get "n") = some (.int64 1) := by decide +kernel
  have htwo : ∀ order ∈ [[(0 : Fin 2), 1], [1, 0]], (docMap ((holding sampleTally).run
      (order.map fun i => (sampleIncrements i).step ⟨"c"⟩ ⟨.string "d"⟩)).storage
      ⟨"c"⟩ "\"d\"").bind (fun d => d.get "n") = some (.int64 2) := by decide +kernel
  refine ⟨fun i => Prog.result_eq_some.mp (by revert i; decide +kernel), hone, ?_⟩
  intro order hnodup hmem hsame
  have hperm : order.Perm [0, 1] :=
    (List.perm_ext_iff_of_nodup hnodup (by decide)).mpr fun i =>
      iff_of_true (hmem i) (by revert i; decide)
  have horder : order ∈ [[(0 : Fin 2), 1], [1, 0]] := by
    have hlist := List.mem_permutations'.mpr hperm
    exact (by decide : ∀ o ∈ [(0 : Fin 2), 1].permutations', o ∈ [[(0 : Fin 2), 1], [1, 0]]) _ hlist
  have hfield := hsame "n" (by decide)
  rw [hone, htwo order horder] at hfield
  cases hfield

end
end RangoEngine
end Rango
