import Rango.Core.AgreeTheorems

/-!
# An engine does not see its backend

Two engines over backends that stand for the same documents answer every request alike and stand
for the same documents afterwards.
-/

namespace Rango
namespace RangoEngine

/-! ## The same documents -/

/-- Nothing in a request tells the same documents apart. -/
lemma alike_self [Formatting] (D : DocMap) (x : EngineRequest) : x.Alike Eq D D := by
  cases x with
  | gcDeleted c => exact ⟨rfl, rfl⟩
  | deleteOne | resolveConflict | createSnapshot | restoreFromSnapshot | rollbackToSnapshot => rfl
  | insertOne | updateOne | applyRemoteMutation | applyMutationsDeterministic | listConflicts
  | findOne | find => trivial

variable {σ τ ω : Type} {holds : σ → DocMap → Prop} {holds' : τ → DocMap → Prop} [Formatting]
  [StorageEngine σ] [StorageEngine τ] [BsonTraits] [SliceSort] [Oplog ω] [BsonCodec]
  [MutationHasher] [Arithmetic]

/-- **Runs.** Engines over the same documents answer every run of requests alike. -/
theorem Agree.run {S : Set CollectionName} (h : MapOn S holds) (h' : MapOn S holds') {D D' : DocMap}
    {e : RangoEngine σ ω} {g : RangoEngine τ ω} (ha : Agree Eq holds holds' D D' e g)
    {xs : List EngineRequest} (hnames : ∀ x ∈ xs, ∀ c ∈ x.names, c ∈ S)
    {pre : List EngineRequest} {x : EngineRequest} (hpre : pre ++ [x] <+: xs) :
    ∃ D, Agree Eq holds holds' D D (pre.foldl afterRequest e) (pre.foldl afterRequest g) ∧
      (x.Determined D → x.Same ((pre.foldl afterRequest e).serve x).1
        ((pre.foldl afterRequest g).serve x).1) := by
  obtain rfl := ha.related
  induction pre generalizing D e g xs with
  | nil =>
    have hx : x ∈ xs := hpre.subset List.mem_cons_self
    exact ⟨D, ha, (ha.serve upToTombstones_eq h h' (hnames x hx) (alike_self D x)).2⟩
  | cons y pre ih =>
    cases xs with
    | nil => simp at hpre
    | cons y' rest =>
      obtain ⟨rfl, hrest⟩ := List.cons_prefix_cons.mp hpre
      obtain ⟨D₁, D₁', ha₁⟩ := (ha.serve upToTombstones_eq h h' (hnames y List.mem_cons_self)
        (alike_self D y)).1
      obtain rfl := ha₁.related
      exact ih (fun z hz => hnames z (List.mem_cons_of_mem y hz)) hrest ha₁

/-! ## The backend of the bindings -/

/-- **The backends are interchangeable.** Take an engine on new redb storage under
`DegradingStorage`, the disk with space at every check, and one on new in-memory storage. For every
run of requests whose collection names are separated: after any part of the run the table holds
exactly the documents of the in-memory collections, the oplogs, the recorded write ids and the
counts of drifts are equal, and the next request is answered the same where the documents determine
its answer. -/
theorem bindings_agree {S : Set CollectionName} (hS : Separated S) {minFreeBytes available : ℕ}
    {spaceChecker : ℕ → Except RangoError ℕ}
    (hspace : ∀ n, ∃ available, spaceChecker n = .ok available ∧ minFreeBytes ≤ available)
    (o : ω) (nodeId : String) (config : RangoConfig) {xs : List EngineRequest}
    (hnames : ∀ x ∈ xs, ∀ c ∈ x.names, c ∈ S) {pre : List EngineRequest} {x : EngineRequest}
    (hpre : pre ++ [x] <+: xs) :
    let m := pre.foldl afterRequest (openWithConfig MemoryStorage.new o nodeId config)
    let r := pre.foldl afterRequest (openWithConfig
      (DegradingStorage.openOver RedbStorage.openNew minFreeBytes available spaceChecker)
      o nodeId config)
    TableOf m.storage.view r.storage.inner ∧ r.oplog = m.oplog ∧
      r.appliedWriteIds = m.appliedWriteIds ∧
      r.replayDriftDetections = m.replayDriftDetections ∧
      (x.Determined m.storage.view → x.Same (m.serve x).1 (r.serve x).1) := by
  have hopen : Agree Eq (fun (s : MemoryStorage) D => docMap s = D)
      (DegradingStorage.Holds (RedbHolds S)) DocMap.empty DocMap.empty
      (openWithConfig MemoryStorage.new o nodeId config)
      (openWithConfig (DegradingStorage.openOver RedbStorage.openNew minFreeBytes available
        spaceChecker) o nodeId config) :=
    ⟨rfl, MemoryStorage.docMap_new, ⟨redbHolds_new S, rfl, hspace⟩, rfl, rfl, rfl, rfl, rfl⟩
  obtain ⟨D, ha, hanswer⟩ := hopen.run (MapStorage.mapOn S)
    (DegradingStorage.mapOn (RedbStorage.mapOn hS)) hnames hpre
  obtain rfl := ha.left
  exact ⟨ha.right.inner.table, ha.oplog, ha.appliedWriteIds, ha.replayDriftDetections, hanswer⟩

end RangoEngine

/-! ## A worked example -/

section
attribute [local instance] Formatting.sample MutationHasher.sample Arithmetic.sample
  BsonTraits.sample SliceSort.sample sampleWriteCodec

/-- An insert, a deletion, a snapshot, a garbage collection and a query for the first document by
its id. -/
def sampleRequestRun : List EngineRequest :=
  [.insertOne ⟨"a"⟩ sampleDoc (.sample 1 0), .deleteOne ⟨"a"⟩ ⟨.string "d"⟩ (.sample 2 0),
    .createSnapshot ⟨"a"⟩ "default" "s" 0 3, .gcDeleted ⟨"b"⟩,
    .find ⟨"a"⟩ .empty none (some ("_id", false)) none (some 1)]

/-- For that run and its query. -/
theorem RangoEngine.bindings_agree_sample :
    let pre := sampleRequestRun.take 4
    let x : EngineRequest := .find ⟨"a"⟩ .empty none (some ("_id", false)) none (some 1)
    let m := pre.foldl afterRequest (openWithConfig MemoryStorage.new MemLog.new "a" .default)
    let r := pre.foldl afterRequest (openWithConfig
      (DegradingStorage.openOver RedbStorage.openNew 100 200 fun _ => .ok 150)
      MemLog.new "a" .default)
    TableOf m.storage.view r.storage.inner ∧ r.oplog = m.oplog ∧
      r.appliedWriteIds = m.appliedWriteIds ∧
      r.replayDriftDetections = m.replayDriftDetections ∧
      (x.Determined m.storage.view → x.Same (m.serve x).1 (r.serve x).1) :=
  have hnames : ∀ x ∈ sampleRequestRun, ∀ c ∈ x.names, c ∈ ({⟨"a"⟩, ⟨"b"⟩} : Set CollectionName) :=
    by simp [sampleRequestRun, EngineRequest.names]
  bindings_agree separated_sample (fun _ => ⟨150, rfl, by decide⟩) MemLog.new "a" .default hnames
    (List.prefix_rfl)

end
end Rango
