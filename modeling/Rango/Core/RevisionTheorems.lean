import Rango.Core.CallTheorems
import Rango.Core.FilingTheorems
import Mathlib.Data.Fintype.Pigeonhole

/-!
# Revisions of local writes

A local write takes its revision from the wall clock, from a counter that wraps, and from four
digits of the node id's hash. None of the three looks at what is stored, or at other nodes:
`local_write_newer_iff` says when a write is newer than what it overwrites, and
`writes_untied_iff` when the writes of a network have different revisions.
-/

namespace Rango

section
variable [Formatting]

/-! ## The order of the readings -/

/-- The readings of a local write are in the ranges of their types. -/
structure WriteClock.InRange (t : WriteClock) : Prop where
  ms : t.revisionMs < 2 ^ 64
  counter : t.revisionCounter < 2 ^ 16

instance (t : WriteClock) : Decidable t.InRange :=
  decidable_of_iff (t.revisionMs < 2 ^ 64 ∧ t.revisionCounter < 2 ^ 16)
    ⟨fun h => ⟨h.1, h.2⟩, fun h => ⟨h.ms, h.counter⟩⟩

/-- The revision is behind the readings: its time is, or it is the same and its counter is, or that
is the same too and its node part comes before the node's. -/
def Revision.Behind (r : Revision) (t : WriteClock) (nodeId : String) : Prop :=
  r.timestampMs < t.revisionMs ∨ r.timestampMs = t.revisionMs ∧
    (r.counter < t.revisionCounter ∨ r.counter = t.revisionCounter ∧
      r.nodeIdShort < shortNodeId nodeId)

lemma WriteClock.InRange.cmp_revision {t : WriteClock} (h : t.InRange) (r : Revision)
    (nodeId : String) : r.cmp (t.revision nodeId) = .lt ↔ r.Behind t nodeId := by
  rw [Revision.cmp_eq_lt, Revision.key_new h.ms h.counter, Revision.key, Prod.Lex.toLex_lt_toLex,
    Prod.Lex.toLex_lt_toLex]
  rfl

/-- The document that a local write stamps is compared by the revision of the write. -/
lemma WriteClock.InRange.docRevision_stamp {t : WriteClock} (h : t.InRange) (nodeId : String)
    (doc : Document) :
    docRevision (RangoEngine.stamp nodeId (t.revision nodeId) t doc) = t.revision nodeId :=
  docRevision_of_get (Revision.fromStr_new h.ms h.counter) (stamp_rev nodeId _ t doc)

/-! ## Newer than what was there -/

namespace RangoEngine

section
variable {σ ω : Type} [FallibleStorage σ] [Oplog ω] {e e' : RangoEngine σ ω}
  {c : CollectionName} {id : DocumentId} {t : WriteClock}

variable [BsonCodec] [MutationHasher]

omit [BsonCodec] in
/-- The end of a local write that goes through: the document is stored. -/
lemma stored_of_committed {β : Type} (fault : RangoError → β) {op : MutationOp}
    {patch : Option Document} {rev : Revision} {doc : Document}
    (h : (match e.storagePut c id doc with
      | (.error err, e) => (.error (fault err), e)
      | (.ok (), e) =>
        match e.report (e.localMutation op c id patch rev t) t with
        | (.error err, e) => (.error (fault err), e)
        | (.ok (), e) => (.ok true, e)) = ((.ok true, e') : Except β Bool × RangoEngine σ ω)) :
    stored e'.storage = (stored e.storage).set c id.toString (some doc) := by
  rcases (puts_end fault true e op c id doc patch rev t).ends with
    ⟨err, e₁, hfailed⟩ | ⟨e₁, hok, hstored⟩
  · cases hfailed.symm.trans h
  · obtain rfl : e₁ = e' := congrArg Prod.snd (hok.symm.trans h)
    exact hstored

/-- An update that goes through stores the updated document, stamped. -/
lemma updateOne_stored [Arithmetic] {update : Document}
    (h : e.updateOne c id update t = (.ok true, e')) :
    ∃ old new, stored e.storage c id.toString = some old ∧
      stored e'.storage = (stored e.storage).set c id.toString
        (some (stamp e.nodeId (t.revision e.nodeId) t new)) := by
  obtain ⟨old, e₁, hplace, hkeeps, hnode, h⟩ := stored_of_found h (by simp)
  by_cases hdel : isDeleted old = true
  · rw [if_pos hdel] at h
    cases h
  rw [if_neg hdel] at h
  cases hnew : applyUpdate old update with
  | error fault =>
    rw [hnew] at h
    cases h
  | ok new =>
    rw [hnew] at h
    dsimp only at h
    -- the document that was too large is not put
    split at h
    · cases h
    · refine ⟨old, new, hplace, ?_⟩
      rw [← hkeeps, ← hnode]
      exact stored_of_committed Fault.error h

omit [BsonCodec] in
/-- A deletion that goes through stores the old document as a tombstone, stamped. -/
lemma deleteOne_stored (h : e.deleteOne c id t = (.ok true, e')) :
    ∃ old, stored e.storage c id.toString = some old ∧
      stored e'.storage = (stored e.storage).set c id.toString (some
        (stamp e.nodeId (t.revision e.nodeId) t (old.insert "_deleted" (.boolean true)))) := by
  obtain ⟨old, e₁, hplace, hkeeps, hnode, h⟩ := stored_of_found h (by simp)
  refine ⟨old, hplace, ?_⟩
  rw [← hkeeps, ← hnode]
  exact stored_of_committed (fun err => err) h

/-- **Newer than what was there.** For every engine, every reading of the clock and every value of
the counter: when an update or a deletion goes through, the revision that it stores is greater
than the one that was stored, exactly when that one is behind the readings. -/
theorem local_write_newer_iff [Arithmetic] (update : Document) (ht : t.InRange)
    (h : e.updateOne c id update t = (.ok true, e') ∨ e.deleteOne c id t = (.ok true, e')) :
    ∃ old new, stored e.storage c id.toString = some old ∧
      stored e'.storage c id.toString = some new ∧
      ((docRevision old).cmp (docRevision new) = .lt ↔ (docRevision old).Behind t e.nodeId) := by
  have hstamped : ∃ old doc, stored e.storage c id.toString = some old ∧
      stored e'.storage = (stored e.storage).set c id.toString
        (some (stamp e.nodeId (t.revision e.nodeId) t doc)) := by
    rcases h with h | h
    · exact updateOne_stored h
    · obtain ⟨old, hold, hset⟩ := deleteOne_stored h
      exact ⟨old, _, hold, hset⟩
  obtain ⟨old, doc, hold, hset⟩ := hstamped
  refine ⟨old, _, hold, by rw [hset, DocMap.set_self], ?_⟩
  rw [ht.docRevision_stamp]
  exact ht.cmp_revision (docRevision old) e.nodeId

end

/-! ## Revisions of a network -/

variable {σ ω : Type} [FallibleStorage σ] [LogOplog ω] [BsonCodec] [MutationHasher] [Arithmetic]

/-- The write of a call that gets to store its document. -/
def callWrite (e : RangoEngine σ ω) : EngineCall → Option Write
  | .step s => (e.planned s).filter fun w =>
      ((e.look s).2.storagePut w.collection w.id w.doc).1.isOk
  | _ => none

variable {ι : Type} [DecidableEq ι]

/-- One node of a network makes a call. -/
def netCall (net : ι → RangoEngine σ ω) (x : ι × EngineCall) : ι → RangoEngine σ ω :=
  Function.update net x.1 ((net x.1).call x.2)

/-- The writes of a run, each with the node that makes it. -/
def netWrites (net : ι → RangoEngine σ ω) : List (ι × EngineCall) → List (ι × Write)
  | [] => []
  | x :: rest =>
    (((net x.1).callWrite x.2).map (Prod.mk x.1)).toList ++ netWrites (netCall net x) rest

/-- An engine keeps its node id. -/
lemma call_nodeId (e : RangoEngine σ ω) (x : EngineCall) : (e.call x).nodeId = e.nodeId := by
  have hbatch : ∀ (e : RangoEngine σ ω) (default : CollectionName) (ms : List Mutation),
      (e.applyMutationsDeterministic default ms).2.nodeId = e.nodeId := by
    intro e default ms
    rcases applyMutationsDeterministic_cases e default ms with
      ⟨-, hleft⟩ | ⟨err, pre, m, post, -, -, hint, -⟩
    · exact hleft.nodeId
    · exact hint.left.nodeId
  cases x with
  | step s =>
    cases s with
    | applyBatch default ms => exact hbatch e default ms
    | insert c doc t => exact (step_frame e rfl).1
    | update c id update t => exact (step_frame e rfl).1
    | delete c id t => exact (step_frame e rfl).1
  | applyRemote c doc =>
    show (e.applyRemoteMutation c doc).2.nodeId = e.nodeId
    cases hid : doc.get "_id" with
    | none =>
      unfold applyRemoteMutation
      rw [hid]
    | some b => rw [(applyRemoteMutation_stored e c hid).1]
  | restore c snapshot replay =>
    exact restoreFromSnapshot_keeps (P := fun e' => e'.nodeId = e.nodeId) (c := c)
      (fun _ he => he) (fun _ _ he => he) (fun _ _ _ _ he => he)
      (fun _ he => (hbatch _ c replay).trans he) (fun _ => id) rfl snapshot
  | gc c =>
    exact gcDeleted_keeps (P := fun e' => e'.nodeId = e.nodeId) (c := c) (fun _ he => he)
      (fun _ _ he => he) rfl

lemma netCall_nodeId (net : ι → RangoEngine σ ω) (x : ι × EngineCall) (i : ι) :
    (netCall net x i).nodeId = (net i).nodeId := by
  unfold netCall
  by_cases h : i = x.1
  · rw [h, Function.update_self, call_nodeId]
  · rw [Function.update_of_ne h]

end RangoEngine

/-- The write's revision is that of its readings, and the document it sends carries it. -/
structure Write.TakenBy (w : Write) (nodeId : String) : Prop where
  rev : w.mutation.rev = w.clock.revision nodeId
  sent : ∀ n, (RangoEngine.mutationDocument n w.mutation).get "_rev" =
    some (.string (w.clock.revision nodeId).text)

lemma RangoEngine.Prepares.takenBy [MutationHasher] [Arithmetic] {σ ω : Type}
    {e : RangoEngine σ ω} {found : Option Document} {s : EngineStep} {w : Write}
    (h : Prepares e found s w) : w.TakenBy e.nodeId := by
  cases h with
  | insert c doc t =>
    refine ⟨rfl, fun n => ?_⟩
    show ((stamp e.nodeId (t.revision e.nodeId) t (doc.insert "_id" _)).remove "_deleted").get
      "_rev" = _
    rw [Document.get_remove_of_ne _ (by decide), stamp_rev]
    rfl
  | update => exact ⟨rfl, fun n => stamp_rev _ _ _ _⟩
  | delete =>
    refine ⟨rfl, fun n => ?_⟩
    show (tombstone n _).get "_rev" = _
    unfold tombstone
    rw [Document.get_insert_of_ne _ _ (by decide), Document.get_insert_of_ne _ _ (by decide),
      Document.get_insert_self]
    rfl

/-- The time and the counter that a local write reads. -/
def WriteClock.reading (t : WriteClock) : ℕ × ℕ := (t.revisionMs, t.revisionCounter)

/-- Revisions tie when their readings are the same and their nodes are called the same in
short. -/
lemma WriteClock.InRange.tie_iff {t t' : WriteClock} (h : t.InRange) (h' : t'.InRange)
    (nodeId nodeId' : String) : (t.revision nodeId).cmp (t'.revision nodeId') = .eq ↔
      t.reading = t'.reading ∧ Revision.shortNodeId nodeId = Revision.shortNodeId nodeId' := by
  rw [Revision.cmp_eq_eq, Revision.key_new h.ms h.counter, Revision.key_new h'.ms h'.counter,
    WriteClock.reading, WriteClock.reading]
  simp only [toLex_inj, Prod.mk.injEq, and_assoc]

/-- Mutations that no node takes for the same version: neither their revisions nor the documents
that come of them compare equal. -/
structure Distinguished (a b : Mutation) : Prop where
  revs : a.rev.cmp b.rev ≠ .eq
  docs : ∀ n n', (docRevision (RangoEngine.mutationDocument n a)).cmp
    (docRevision (RangoEngine.mutationDocument n' b)) ≠ .eq

lemma Write.TakenBy.distinguished_iff {v w : Write} {nodeId nodeId' : String}
    (hv : v.TakenBy nodeId) (hw : w.TakenBy nodeId') (hrange : v.clock.InRange)
    (hrange' : w.clock.InRange) : Distinguished v.mutation w.mutation ↔
      (v.clock.reading = w.clock.reading →
        Revision.shortNodeId nodeId ≠ Revision.shortNodeId nodeId') := by
  have hdoc : ∀ n, docRevision (RangoEngine.mutationDocument n v.mutation) =
      v.clock.revision nodeId := fun n =>
    docRevision_of_get (Revision.fromStr_new hrange.ms hrange.counter) (hv.sent n)
  have hdoc' : ∀ n, docRevision (RangoEngine.mutationDocument n w.mutation) =
      w.clock.revision nodeId' := fun n =>
    docRevision_of_get (Revision.fromStr_new hrange'.ms hrange'.counter) (hw.sent n)
  have htie := not_congr (hrange.tie_iff hrange' nodeId nodeId')
  rw [← not_and, ← htie]
  constructor
  · intro h
    rw [← hv.rev, ← hw.rev]
    exact h.revs
  · intro h
    refine ⟨by rwa [hv.rev, hw.rev], fun n n' => ?_⟩
    rwa [hdoc, hdoc']

namespace RangoEngine

variable {σ ω : Type} [FallibleStorage σ] [LogOplog ω] [BsonCodec] [MutationHasher] [Arithmetic]
  {ι : Type} [DecidableEq ι]

/-- The writes of a run are stamped by the nodes that make them. -/
lemma takenBy_of_mem_netWrites {net : ι → RangoEngine σ ω} {calls : List (ι × EngineCall)}
    {v : ι × Write} (h : v ∈ netWrites net calls) : v.2.TakenBy (net v.1).nodeId := by
  induction calls generalizing net with
  | nil => cases h
  | cons x rest ih =>
    rcases List.mem_append.mp h with hmade | hrest
    · obtain ⟨w, hw, rfl⟩ := Option.map_eq_some_iff.mp (Option.mem_toList.mp hmade)
      obtain ⟨i, call⟩ := x
      cases call with
      | step s =>
        have hplan : (net i).planned s = some w := (Option.filter_eq_some_iff.mp hw).1
        obtain ⟨found, -, hprepares⟩ := prepares_of_planned hplan
        exact hprepares.takenBy
      | applyRemote c doc => cases hw
      | restore c snapshot replay => cases hw
      | gc c => cases hw
    · have hnode := ih hrest
      rwa [netCall_nodeId] at hnode

/-- **Different writes.** For every run of calls on any nodes, whatever their clocks and counters
show, as long as no node reads the same time and counter twice: no two writes of the run have
revisions that compare equal, and no node takes one for the other, exactly when nodes that
read the same time and counter have different first four digits of the hash. -/
theorem writes_untied_iff {net : ι → RangoEngine σ ω} {calls : List (ι × EngineCall)}
    (hrange : ∀ v ∈ netWrites net calls, v.2.clock.InRange)
    (hunique : (netWrites net calls).Pairwise fun v w =>
      v.1 = w.1 → v.2.clock.reading ≠ w.2.clock.reading) :
    ((netWrites net calls).Pairwise fun v w => Distinguished v.2.mutation w.2.mutation) ↔
    (netWrites net calls).Pairwise fun v w =>
      v.1 ≠ w.1 → v.2.clock.reading = w.2.clock.reading →
        Revision.shortNodeId (net v.1).nodeId ≠ Revision.shortNodeId (net w.1).nodeId := by
  have hiff : ∀ {v w}, v ∈ netWrites net calls → w ∈ netWrites net calls → _ :=
    fun hv hw => (takenBy_of_mem_netWrites hv).distinguished_iff (takenBy_of_mem_netWrites hw)
      (hrange _ hv) (hrange _ hw)
  -- two writes of one node differ in their readings, so only those of different nodes may tie
  constructor
  · intro hdistinct
    exact hdistinct.imp_of_mem fun hv hw h _ => (hiff hv hw).mp h
  · intro hshort
    refine (hunique.and hshort).imp_of_mem fun {v w} hv hw h => (hiff hv hw).mpr fun hsame => ?_
    by_cases hnode : v.1 = w.1
    · exact absurd hsame (h.1 hnode)
    · exact h.2 hnode hsame

end RangoEngine

/-- Whatever the hash, two nodes share their revisions at every reading: there are more names than
hashes. -/
theorem exists_same_revision :
    ∃ a b : String, a ≠ b ∧ ∀ t : WriteClock, t.revision a = t.revision b := by
  have : Infinite String :=
    Infinite.of_injective (fun n => String.ofList (List.replicate n 'a')) fun m n h => by
      simpa using congrArg String.length h
  have : Finite UInt64 := Finite.of_injective UInt64.toFin fun a b => UInt64.toFin_inj.mp
  obtain ⟨a, b, hne, hhash⟩ := Finite.exists_ne_map_eq_of_infinite Formatting.defaultHash
  refine ⟨a, b, hne, fun t => ?_⟩
  rw [WriteClock.revision, WriteClock.revision, Revision.new, Revision.new, Revision.shortNodeId,
    Revision.shortNodeId, hhash]

end

/-! ## Worked examples -/

section
attribute [local instance] Formatting.sample MutationHasher.sample Arithmetic.sample

/-- A version from a node whose clock is ahead. -/
def sampleAhead : Document :=
  ⟨[("_id", .string "d"), ("_rev", .string "1000-0-b"), ("name", .string "B")]⟩

/-- The node `"a"`, which has received it. -/
def sampleReceiver : RangoEngine MemoryStorage MemLog :=
  (sampleWriter.applyRemoteMutation ⟨"c"⟩ sampleAhead).2

/-- An edit of it. -/
def sampleEdit : Document := ⟨[("$set", .document [("name", .string "A")])]⟩

/-- The edited document, when the clock of `"a"` shows 5. -/
def sampleEdited : Document :=
  (sampleReceiver.updateWrite ⟨"c"⟩ ⟨.string "d"⟩ (sampleAhead.insert "name" (.string "A"))
    (.sample 5 0)).doc

/-- A codec that knows it. -/
@[reducible] def sampleEditCodec : BsonCodec := .ofTable [] [sampleEdited]

attribute [local instance] sampleEditCodec

/-- For that edit. -/
theorem RangoEngine.local_write_newer_iff_edit :
    ∃ old new, stored sampleReceiver.storage ⟨"c"⟩ (DocumentId.toString ⟨.string "d"⟩) = some old ∧
      stored (sampleReceiver.updateOne ⟨"c"⟩ ⟨.string "d"⟩ sampleEdit (.sample 5 0)).2.storage ⟨"c"⟩
        (DocumentId.toString ⟨.string "d"⟩) = some new ∧
      ((docRevision old).cmp (docRevision new) = .lt ↔
        (docRevision old).Behind (.sample 5 0) sampleReceiver.nodeId) :=
  local_write_newer_iff sampleEdit (by decide)
    (Or.inl (Prod.ext (by decide +kernel) rfl))

/-- The node edits what it has received from a node whose clock is ahead, and the edit gets a
lesser revision: the old version, sent once more, wins against it. A counter that wraps within a
millisecond does the same. -/
theorem edit_is_older :
    (sampleReceiver.updateOne ⟨"c"⟩ ⟨.string "d"⟩ sampleEdit (.sample 5 0)).1 = .ok true ∧
      stored sampleReceiver.storage ⟨"c"⟩ "\"d\"" = some sampleAhead ∧
      stored (sampleReceiver.updateOne ⟨"c"⟩ ⟨.string "d"⟩ sampleEdit (.sample 5 0)).2.storage ⟨"c"⟩
        "\"d\"" = some sampleEdited ∧
      (docRevision sampleEdited).cmp (docRevision sampleAhead) = .lt ∧
      ((sampleReceiver.updateOne ⟨"c"⟩ ⟨.string "d"⟩ sampleEdit (.sample 5 0)).2.applyRemoteMutation
        ⟨"c"⟩ sampleAhead).2.findOne ⟨"c"⟩ ⟨.string "d"⟩ =
          .ok (some (addConflict sampleEdited sampleAhead)) ∧
      ((WriteClock.sample 5 0).revision "a").cmp ((WriteClock.sample 5 65535).revision "a") =
        .lt := by
  refine ⟨?_, ?_, ?_, ?_, ?_, ?_⟩
  · decide +kernel
  · decide +kernel
  · decide +kernel
  · decide +kernel
  · decide +kernel
  · decide +kernel

end

section

/-- A hash that tells the nodes below apart, in its last digits. -/
@[reducible] def sampleHash : Formatting :=
  { Formatting.sample with defaultHash := fun s => UInt64.ofNat s.length }

attribute [local instance] sampleHash MutationHasher.sample Arithmetic.sample

/-- Two newly opened nodes, `"a"` and `"bb"`. -/
def sampleNet (i : Bool) : RangoEngine MemoryStorage MemLog :=
  .openEngine MemoryStorage.new MemLog.new (if i then "a" else "bb")

/-- The document as either of them stores it. -/
def sampleFrom (i : Bool) : Document :=
  ((sampleNet i).insertWrite ⟨"c"⟩ sampleDoc (.sample 1 0)).doc

/-- A codec that knows the documents. -/
@[reducible] def sampleNetCodec : BsonCodec :=
  .ofTable [] [sampleDoc, sampleFrom true, sampleFrom false]

attribute [local instance] sampleNetCodec

/-- Each inserts the document, at the same time and with the same counter. -/
def sampleNetCalls : List (Bool × EngineCall) :=
  [(true, .step (.insert ⟨"c"⟩ sampleDoc (.sample 1 0))),
    (false, .step (.insert ⟨"c"⟩ sampleDoc (.sample 1 0)))]

/-- For these two nodes. -/
theorem RangoEngine.writes_untied_iff_two :
    ((netWrites sampleNet sampleNetCalls).Pairwise fun v w =>
      Distinguished v.2.mutation w.2.mutation) ↔
    (netWrites sampleNet sampleNetCalls).Pairwise fun v w =>
      v.1 ≠ w.1 → v.2.clock.reading = w.2.clock.reading →
        Revision.shortNodeId (sampleNet v.1).nodeId ≠
          Revision.shortNodeId (sampleNet w.1).nodeId :=
  writes_untied_iff (by decide +kernel) (by decide +kernel)

/-- Both writes get the revision `1-0-0000`. Each node takes the document of the other for its
own, and they keep different ones, without a conflict. -/
theorem two_nodes_tie :
    (sampleNet true).nodeId ≠ (sampleNet false).nodeId ∧
      (RangoEngine.netWrites sampleNet sampleNetCalls).map (fun v => (v.1, v.2.mutation.rev)) =
        [(true, ⟨"1-0-0000"⟩), (false, ⟨"1-0-0000"⟩)] ∧
      ¬ ((RangoEngine.netWrites sampleNet sampleNetCalls).Pairwise fun v w =>
        Distinguished v.2.mutation w.2.mutation) ∧
      sampleFrom true ≠ sampleFrom false ∧
      stored (((sampleNetCalls.foldl RangoEngine.netCall sampleNet) false).applyRemoteMutation ⟨"c"⟩
        (sampleFrom true)).2.storage ⟨"c"⟩ "\"d\"" = some (sampleFrom false) ∧
      stored (((sampleNetCalls.foldl RangoEngine.netCall sampleNet) true).applyRemoteMutation ⟨"c"⟩
        (sampleFrom false)).2.storage ⟨"c"⟩ "\"d\"" = some (sampleFrom true) := by
  refine ⟨?_, ?_, fun hdistinct => ?_, ?_, ?_, ?_⟩
  · decide
  · decide +kernel
  · exact absurd (hdistinct.imp Distinguished.revs) (by decide +kernel)
  · decide +kernel
  · decide +kernel
  · decide +kernel

end
end Rango
