import Rango.Core.AgreeTheorems
import Rango.Core.FilingTheorems
import Rango.Core.ResolutionTheorems

/-!
# Garbage collection is not seen

`gc_deleted` finds tombstones by a scan and deletes by the `_id` they carry. As long as documents
are stored under the `_id` they carry, that removes tombstones and nothing else. Requests treat a
tombstone like a missing document, but for those that `Spares` rules out: a deletion deletes a
tombstone again, and a snapshot contains it. So the collections can be left out of a run of other
requests (`gc_unseen`).
-/

namespace Rango

/-! ## Emptied places -/

section
variable {D D' : DocMap} {c : CollectionName}

/-- The relation of a map to one without some of its tombstones is one of those. -/
lemma upToTombstones_swept : UpToTombstones Swept where
  swept h := h
  set h c k d c' k' := by
    by_cases hk : c' = c ∧ k' = k
    · obtain ⟨rfl, rfl⟩ := hk
      rw [DocMap.set_self, DocMap.set_self]
      exact Or.inl rfl
    · rw [DocMap.set_of_ne _ _ hk, DocMap.set_of_ne _ _ hk]
      exact h c' k'

variable [Formatting]

lemma InPlace.of_swept (h : InPlace D) (hswept : Swept D D') : InPlace D' :=
  fun c k d hget => h c k d (hswept.of_some hget)

/-- With documents in place, the places that documents carry are their own. -/
lemma InPlace.emptied_eq (h : InPlace D) (c : CollectionName) (p : Document → Bool)
    (c' : CollectionName) (k : String) :
    D.emptied c p c' k = if c' = c then (D c' k).filter fun d => !p d else D c' k := by
  unfold DocMap.emptied
  by_cases hc : c' = c
  · subst hc
    rw [if_pos rfl]
    by_cases hcarried : ∃ k' d, D c' k' = some d ∧ p d = true ∧ d.printedId = some k
    · rw [if_pos ⟨rfl, hcarried⟩]
      obtain ⟨k', d, hget, hp, hid⟩ := hcarried
      obtain rfl : k' = k := Option.some.inj ((h c' k' d hget).symm.trans hid)
      rw [hget, Option.filter_some, if_neg (by simp [hp])]
    · rw [if_neg fun hand => hcarried hand.2]
      cases hget : D c' k with
      | none => rfl
      | some d =>
        have hp : p d = false := by
          by_contra hp
          exact hcarried ⟨k, d, hget, by simpa using hp, h c' k d hget⟩
        rw [Option.filter_some, if_pos (by simp [hp])]
  · rw [if_neg fun hand => hc hand.1, if_neg hc]

/-- A collection that is emptied is emptied in both. -/
lemma Swept.emptied_all (hswept : Swept D D') (h : InPlace D) (c : CollectionName) :
    Swept (D.emptied c fun _ => true) (D'.emptied c fun _ => true) := by
  intro c' k
  rw [h.emptied_eq, (h.of_swept hswept).emptied_eq]
  by_cases hc : c' = c
  · rw [if_pos hc, if_pos hc]
    refine Or.inl ?_
    cases D' c' k <;> cases D c' k <;> rfl
  · rw [if_neg hc, if_neg hc]
    exact hswept c' k

/-- One that loses its tombstones differs by these. -/
lemma Swept.emptied_deleted (hswept : Swept D D') (h : InPlace D) (c : CollectionName) :
    Swept D (D'.emptied c isDeleted) := by
  intro c' k
  rw [(h.of_swept hswept).emptied_eq]
  by_cases hc : c' = c
  · rw [if_pos hc]
    rcases hswept c' k with heq | ⟨hnone, htomb⟩
    · rw [heq]
      cases hget : D c' k with
      | none => exact Or.inl rfl
      | some d =>
        by_cases hdel : isDeleted d = true
        · refine Or.inr ⟨?_, d, rfl, hdel⟩
          rw [Option.filter_some, if_neg (by simp [hdel])]
        · refine Or.inl ?_
          rw [Option.filter_some, if_pos (by simp [hdel])]
    · rw [hnone]
      exact Or.inr ⟨rfl, htomb⟩
  · rw [if_neg hc]
    exact hswept c' k

end

/-! ## Requests that see no tombstone -/

/-- The request is a garbage collection. -/
def EngineRequest.isGc : EngineRequest → Bool
  | .gcDeleted _ => true
  | _ => false

section
variable {σ ω : Type} [Formatting] [MapStorage σ] [BsonCodec] [MutationHasher] [Arithmetic]

/-- The request does not come upon a tombstone that it would tell from a missing document, and what
it stores carries the id that it is stored under. -/
def EngineRequest.Spares (e : RangoEngine σ ω) : EngineRequest → Prop
  | .updateOne c id update t => e.KeepsId (.step (.update c id update t))
  | .deleteOne c id _ => ∀ d, docMap e.storage c id.toString = some d → isDeleted d = false
  | .resolveConflict c id chosenRev => ∀ d, docMap e.storage c id.toString = some d →
      isDeleted d = false ∧ ∀ arr, d.getArray "_conflicts" = some arr →
        ∀ chosen, (RangoEngine.chooseLoop chosenRev [] none arr).2 = some chosen →
          chosen.printedId = some id.toString
  | .createSnapshot c _ _ _ _ => ∀ k d, docMap e.storage c k = some d → isDeleted d = false
  | _ => True

variable {e : RangoEngine σ ω} {x : EngineRequest}

namespace RangoEngine

/-- What the request looks at is the same in maps that differ by tombstones. -/
lemma alike_of_spares (hspares : x.Spares e) (h : InPlace (docMap e.storage)) {D' : DocMap}
    (hswept : Swept (docMap e.storage) D') (hgc : x.isGc = false) :
    x.Alike Swept (docMap e.storage) D' := by
  -- a place without a tombstone holds the same in both
  have hplace : ∀ c k, (∀ d, docMap e.storage c k = some d → isDeleted d = false) →
      D' c k = docMap e.storage c k := by
    intro c k hlive
    rcases hswept c k with heq | ⟨-, t, ht, hdel⟩
    · exact heq
    · rw [hlive t ht] at hdel
      cases hdel
  cases x with
  | deleteOne c id t => exact hplace c _ hspares
  | resolveConflict c id chosenRev => exact hplace c _ fun d hd => (hspares d hd).1
  | createSnapshot c tenantId snapshotId baseSeq now => exact funext fun k => hplace c k (hspares k)
  | restoreFromSnapshot c snapshot replay => exact hswept.emptied_all h c
  | rollbackToSnapshot c snapshot rollback window now => exact hswept.emptied_all h c
  | gcDeleted c => cases hgc
  | insertOne | updateOne | applyRemoteMutation | applyMutationsDeterministic | listConflicts
  | findOne | find => trivial

omit [BsonCodec] [MutationHasher] [Arithmetic] in
lemma rollbackToSnapshot_inPlace (h : InPlace (docMap e.storage)) (c : CollectionName)
    (snapshot : SnapshotUnit) (rollback : RollbackUnit) (window : List Mutation)
    (now : DateTime) :
    InPlace (docMap (e.rollbackToSnapshot c snapshot rollback window now).2.storage) := by
  unfold rollbackToSnapshot
  split_ifs
  · exact h
  · exact h
  · exact h
  · have hrestored : InPlace (docMap (e.restoreFromSnapshot c snapshot
        (window.filter fun m => m.seq ≤ rollback.targetSeq)).2.storage) :=
      restoreFromSnapshot_inPlace (e := e) h c snapshot _
    split
    · next hrun => rwa [hrun] at hrestored
    · next hrun => rwa [hrun] at hrestored

lemma resolveConflict_inPlace (h : InPlace (docMap e.storage)) {c : CollectionName}
    {id : DocumentId} {chosenRev : Revision}
    (hspares : EngineRequest.Spares e (.resolveConflict c id chosenRev)) :
    InPlace (docMap (e.resolveConflict c id chosenRev).2.storage) := by
  unfold resolveConflict
  rw [storageGet_eq]
  cases hget : docMap e.storage c id.toString with
  | none => exact h
  | some d =>
    dsimp only
    cases harr : d.getArray "_conflicts" with
    | none => exact h
    | some arr =>
      dsimp only
      rcases hchoice : chooseLoop chosenRev [] none arr with ⟨rest, chosen⟩
      cases chosen with
      | none => exact h
      | some chosenDoc =>
        obtain ⟨e', hput, hstored⟩ := storagePut_eq e c id (withConflicts chosenDoc rest)
        have hid := (hspares d hget).2 arr harr chosenDoc (by rw [hchoice])
        dsimp only
        rw [hput, hstored.docs]
        refine (h.set_iff c _ _).mpr ?_
        rw [Document.printedId, get_withConflicts _ _ (by decide)]
        exact hid

omit [BsonCodec] [MutationHasher] [Arithmetic] in
/-- A scan of a map leaves the engine as it is. -/
lemma storageScan_eq (e : RangoEngine σ ω) (c : CollectionName) :
    ∃ results, e.storageScan c = (.ok results, e) := by
  obtain ⟨docs, hscan, -⟩ := storage_scan_eq c e.storage
  exact ⟨docs.map fun x => .ok x.2, by rw [storageScan, hscan]⟩

variable [Oplog ω] [BsonTraits] [SliceSort]

/-- Every request leaves the documents at the places they carry. -/
lemma afterRequest_inPlace (hspares : x.Spares e) (h : InPlace (docMap e.storage)) :
    InPlace (docMap (e.afterRequest x).storage) := by
  cases x with
  | insertOne c doc t => exact (call_inPlace_iff (e := e) h (.step (.insert c doc t))).mpr trivial
  | updateOne c id update t =>
    exact (call_inPlace_iff (e := e) h (.step (.update c id update t))).mpr hspares
  | deleteOne c id t => exact (call_inPlace_iff (e := e) h (.step (.delete c id t))).mpr trivial
  | applyRemoteMutation c doc => exact applyRemoteMutation_inPlace (e := e) h c doc
  | applyMutationsDeterministic default ms =>
    exact applyMutationsDeterministic_inPlace (e := e) h default ms
  | restoreFromSnapshot c snapshot replay =>
    exact restoreFromSnapshot_inPlace (e := e) h c snapshot replay
  | rollbackToSnapshot c snapshot rollback window now =>
    exact rollbackToSnapshot_inPlace h c snapshot rollback window now
  | gcDeleted c => exact gcDeleted_inPlace (e := e) h c
  | resolveConflict c id chosenRev => exact resolveConflict_inPlace h hspares
  | findOne c id =>
    show InPlace (docMap (e.storageGet c id).2.storage)
    rw [storageGet_eq]
    exact h
  | createSnapshot c tenantId snapshotId baseSeq now =>
    obtain ⟨docs, -, hall⟩ := findAllRaw_eq e c
    show InPlace (docMap (e.createSnapshot c tenantId snapshotId baseSeq now).2.storage)
    rw [createSnapshot, hall]
    exact h
  | listConflicts c draw =>
    obtain ⟨results, hscan⟩ := storageScan_eq e c
    show InPlace (docMap (e.listConflicts c draw).2.storage)
    rw [listConflicts, hscan]
    exact h
  | find c filter projection sort skip limit =>
    obtain ⟨results, hscan⟩ := storageScan_eq e c
    show InPlace (docMap (e.find c filter projection sort skip limit).2.storage)
    rw [RangoEngine.find, hscan]
    cases sort with
    | none => exact h
    | some key =>
      dsimp only
      split
      · exact h
      · exact h

/-! ## Runs -/

/-- Two engines on maps, the second without some of the tombstones of the first. -/
abbrev SweptBy (e g : RangoEngine σ ω) : Prop :=
  Agree Swept (fun s D => docMap s = D) (fun s D => docMap s = D) (docMap e.storage)
    (docMap g.storage) e g

omit [BsonCodec] [MutationHasher] [Arithmetic] [Oplog ω] [BsonTraits] [SliceSort] in
/-- A garbage collection removes tombstones, all of the collection and nothing else. -/
lemma SweptBy.gcDeleted {g : RangoEngine σ ω} (hs : SweptBy e g) (h : InPlace (docMap e.storage))
    (c : CollectionName) :
    SweptBy e (g.gcDeleted c).2 ∧
      ∀ k d, docMap (g.gcDeleted c).2.storage c k = some d → isDeleted d = false := by
  obtain ⟨docs, s, hscan, hdocs, hnodup, hmem⟩ :=
    (MapStorage.mapOn (σ := σ) Set.univ).scan (D := docMap g.storage) rfl c trivial
  have hlists : Lists docs (docMap g.storage) c := ⟨hnodup, hmem⟩
  obtain ⟨s', hloop, hs'⟩ := gcLoop_holds (MapStorage.mapOn (σ := σ) Set.univ)
    (e := { g with storage := s }) hdocs (Set.mem_univ c) 0 (docs.map Prod.snd)
  have hgc : (g.gcDeleted c).2 = { g with storage := s' } := by
    rw [List.map_map] at hloop
    rw [RangoEngine.gcDeleted, storageScan, hscan]
    dsimp only
    rw [show (docs.map fun x => Except.ok x.2) = docs.map (.ok ∘ Prod.snd) from rfl, hloop]
  rw [hlists.placeAll_none] at hs'
  rw [hgc]
  have hplaces : InPlace (docMap g.storage) := h.of_swept hs.related
  refine ⟨⟨?_, rfl, rfl, hs.oplog, hs.nodeId, hs.config, hs.appliedWriteIds,
    hs.replayDriftDetections⟩, fun k d hget => ?_⟩
  · show Swept (docMap e.storage) (docMap s')
    rw [hs']
    exact hs.related.emptied_deleted h c
  · have hget' : docMap s' c k = some d := hget
    rw [hs', hplaces.emptied_eq, if_pos rfl] at hget'
    simpa using (Option.filter_eq_some_iff.mp hget').2

/-- One request of a run, of which the first engine gets none that collects garbage. -/
lemma SweptBy.serve {g : RangoEngine σ ω} (hs : SweptBy e g) (h : InPlace (docMap e.storage))
    (hspares : x.Spares e) (hgc : x.isGc = false) :
    SweptBy (e.afterRequest x) (g.afterRequest x) ∧
      (x.Determined (docMap e.storage) → x.Same (e.serve x).1 (g.serve x).1) := by
  obtain ⟨⟨D, D', ha⟩, hanswer⟩ := Agree.serve upToTombstones_swept (MapStorage.mapOn Set.univ)
    (MapStorage.mapOn Set.univ) hs (fun c _ => Set.mem_univ c)
    (alike_of_spares hspares h hs.related hgc)
  obtain rfl := ha.left
  obtain rfl := ha.right
  exact ⟨ha, hanswer⟩

/-- A run of which the first engine gets no garbage collections. -/
lemma SweptBy.run {g : RangoEngine σ ω} (hs : SweptBy e g) (h : InPlace (docMap e.storage))
    {xs : List EngineRequest}
    (hspares : Runs.All afterRequest (fun e x => x.Spares e) e (xs.filter fun x => !x.isGc)) :
    SweptBy ((xs.filter fun x => !x.isGc).foldl afterRequest e) (xs.foldl afterRequest g) ∧
      InPlace (docMap ((xs.filter fun x => !x.isGc).foldl afterRequest e).storage) := by
  induction xs generalizing e g with
  | nil => exact ⟨hs, h⟩
  | cons x rest ih =>
    by_cases hgc : x.isGc = true
    · rw [List.filter_cons_of_neg (by simp [hgc])] at hspares ⊢
      obtain ⟨c, rfl⟩ : ∃ c, x = .gcDeleted c := by
        cases x with
        | gcDeleted c => exact ⟨c, rfl⟩
        | _ => cases hgc
      exact ih (hs.gcDeleted h c).1 h hspares
    · rw [Bool.not_eq_true] at hgc
      rw [List.filter_cons_of_pos (by simp [hgc])] at hspares ⊢
      exact ih (hs.serve h hspares.1 hgc).1 (afterRequest_inPlace hspares.1 h) hspares.2

/-- **Garbage collection is not seen.** Take two engines on equal storage, with every document at
the place it carries, and a run of requests, of which one engine gets all and the other all but the
garbage collections. If the requests that this one gets keep documents at their places and do not
delete, resolve or save a tombstone, then at any point of the run the stored documents are the same
but for tombstones that are missing from the first, the oplogs, the recorded write ids and the
counts of drifts are equal, and the next request is answered the same where the documents determine
its answer. A garbage collection leaves no tombstone in its collection. -/
theorem gc_unseen {xs : List EngineRequest} (hplaces : InPlace (docMap e.storage))
    (hspares : Runs.All afterRequest (fun e x => x.Spares e) e (xs.filter fun x => !x.isGc))
    {pre : List EngineRequest} (hpre : pre ++ [x] <+: xs) :
    let plain := (pre.filter fun x => !x.isGc).foldl afterRequest e
    let swept := pre.foldl afterRequest e
    Swept (docMap plain.storage) (docMap swept.storage) ∧ swept.oplog = plain.oplog ∧
      swept.appliedWriteIds = plain.appliedWriteIds ∧
      swept.replayDriftDetections = plain.replayDriftDetections ∧
      (x.isGc = false → x.Determined (docMap plain.storage) →
        x.Same (plain.serve x).1 (swept.serve x).1) ∧
      ∀ c, x = .gcDeleted c → ∀ k d,
        docMap (swept.afterRequest x).storage c k = some d → isDeleted d = false := by
  obtain ⟨post, rfl⟩ := hpre
  rw [List.append_assoc, List.filter_append, Runs.all_append] at hspares
  have hself : SweptBy e e := ⟨fun c k => Or.inl rfl, rfl, rfl, rfl, rfl, rfl, rfl, rfl⟩
  obtain ⟨hs, h⟩ := hself.run hplaces hspares.1
  refine ⟨hs.related, hs.oplog, hs.appliedWriteIds, hs.replayDriftDetections, fun hgc => ?_, ?_⟩
  · have hnext := hspares.2
    rw [List.singleton_append, List.filter_cons_of_pos (by simp [hgc])] at hnext
    exact (hs.serve h hnext.1 hgc).2
  · rintro c rfl
    exact (hs.gcDeleted h c).2

end RangoEngine

end

/-! ## A worked example -/

section
attribute [local instance] Formatting.sample MutationHasher.sample Arithmetic.sample
  BsonTraits.sample SliceSort.sample sampleWriteCodec

/-- An insert, a deletion, a garbage collection, and an old version of the document that arrives
from another node. -/
def sampleGcRun : List EngineRequest :=
  [.insertOne ⟨"c"⟩ sampleDoc (.sample 1 0), .deleteOne ⟨"c"⟩ ⟨.string "d"⟩ (.sample 2 0),
    .gcDeleted ⟨"c"⟩, .applyRemoteMutation ⟨"c"⟩ sampleDoc]

/-- For that run, before the old version arrives: one engine has the tombstone, the other nothing,
and they answer the same. -/
theorem RangoEngine.gc_unseen_sample :
    let plain := (sampleGcRun.take 2).foldl afterRequest sampleWriter
    let swept := (sampleGcRun.take 3).foldl afterRequest sampleWriter
    (docMap plain.storage ⟨"c"⟩ "\"d\"").map isDeleted = some true ∧
      docMap swept.storage ⟨"c"⟩ "\"d\"" = none ∧
      Swept (docMap plain.storage) (docMap swept.storage) ∧ swept.oplog = plain.oplog ∧
      EngineRequest.Same (.applyRemoteMutation ⟨"c"⟩ sampleDoc)
        (plain.serve (.applyRemoteMutation ⟨"c"⟩ sampleDoc)).1
        (swept.serve (.applyRemoteMutation ⟨"c"⟩ sampleDoc)).1 := by
  have hempty : InPlace (docMap sampleWriter.storage) := by
    rw [show docMap sampleWriter.storage = DocMap.empty from MemoryStorage.docMap_new]
    exact filed_empty
  have hlive : docMap (sampleWriter.afterRequest
      (.insertOne ⟨"c"⟩ sampleDoc (.sample 1 0))).storage ⟨"c"⟩ "\"d\"" = some sampleStored := by
    decide +kernel
  have hspares : Runs.All afterRequest (fun e x => x.Spares e) sampleWriter
      (sampleGcRun.filter fun x => !x.isGc) := by
    refine ⟨trivial, fun d hd => ?_, trivial, trivial⟩
    obtain rfl := Option.some.inj (hlive.symm.trans hd)
    decide +kernel
  have hpre : sampleGcRun.take 3 ++ [.applyRemoteMutation ⟨"c"⟩ sampleDoc] <+: sampleGcRun :=
    List.prefix_rfl
  have hunseen := gc_unseen hempty hspares hpre
  exact ⟨by decide +kernel, by decide +kernel, hunseen.1, hunseen.2.1,
    hunseen.2.2.2.2.1 rfl trivial⟩

end
end Rango
