import Rango.Core.ReplayTheorems

/-!
# Convergence of replicas

Replicas that receive the same mutations, cut into batches and ordered in any way, are
compared by what `findOne` answers, the record of lost conflicts left out. Seen so, a
replica is a family of last-writer-wins registers, and `Register.converges_iff` carries
over: all deliveries agree exactly when no document's latest mutation is a deletion while
another of its mutations is live.
-/

namespace Rango

/-! ## Mutations as register messages -/

/-- The mutation leaves a tombstone when it is stored. -/
def Mutation.deletes (m : Mutation) : Bool :=
  match m.patch with
  | some doc => isDeleted doc
  | none => true

/-- A mutation as nodes send it: valid metadata, a write id, a well-formed revision, and a
patch that carries the document's id and that revision. -/
structure Mutation.WellFormed (m : Mutation) : Prop where
  metadata : m.validateMetadata = .ok ()
  writeId : m.writeId ≠ ""
  rev : Revision.fromStr m.rev.text = .ok m.rev
  patch_id : ∀ doc ∈ m.patch, doc.get "_id" = some m.docId.bson
  patch_rev : ∀ doc ∈ m.patch, doc.get "_rev" = some (.string m.rev.text)

/-- A set of mutations to be delivered: well formed, with pairwise distinct write ids and
pairwise unequal revisions. -/
structure ReplicaSet (ms : List Mutation) : Prop where
  wellFormed : ∀ m ∈ ms, m.WellFormed
  writeIds : ms.Pairwise fun a b => a.writeId ≠ b.writeId
  revs : ms.Pairwise fun a b => a.rev.cmp b.rev ≠ .eq

section
variable [Formatting]

/-- The place a mutation is filed at: its collection and its printed document id. -/
def Mutation.place (default : CollectionName) (m : Mutation) : CollectionName × String :=
  (RangoEngine.mutationCollection default m, m.docId.toString)

/-- A mutation as a version of its place. -/
def Mutation.version (m : Mutation) : Register.Version (ℕ ×ₗ ℕ ×ₗ String) Document where
  stamp := m.rev.key
  body := if m.deletes then none else m.patch.map (·.remove "_conflicts")

/-- A document map as a family of registers. -/
def versions (D : DocMap) (k : CollectionName × String) :
    Option (Register.Version (ℕ ×ₗ ℕ ×ₗ String) Document) :=
  (D k.1 k.2).map version

/-- What a replay needs of a mutation: valid metadata, a write id, a well-formed revision, which
a patch carries, and an `_id` that prints as the document's id. -/
structure Mutation.Replayable (m : Mutation) : Prop where
  metadata : m.validateMetadata = .ok ()
  writeId : m.writeId ≠ ""
  rev : Revision.fromStr m.rev.text = .ok m.rev
  targetKey : m.targetKey = some m.docId.toString
  patch_rev : ∀ doc ∈ m.patch, doc.get "_rev" = some (.string m.rev.text)

/-- Mutations as nodes send them can be replayed. -/
lemma Mutation.WellFormed.replayable {m : Mutation} (h : m.WellFormed) : m.Replayable where
  metadata := h.metadata
  writeId := h.writeId
  rev := h.rev
  targetKey := by
    have htarget : m.target = some m.docId.bson := by
      unfold Mutation.target
      cases hpatch : m.patch with
      | none => rfl
      | some doc => exact h.patch_id doc hpatch
    rw [Mutation.targetKey, htarget]
    rfl
  patch_rev := h.patch_rev

/-- The document of a mutation has the mutation's revision, when a patch carries it. -/
lemma docRevision_mutationDocument {m : Mutation} (hrev : Revision.fromStr m.rev.text = .ok m.rev)
    (hpatch_rev : ∀ doc ∈ m.patch, doc.get "_rev" = some (.string m.rev.text)) (nodeId : String) :
    docRevision (RangoEngine.mutationDocument nodeId m) = m.rev := by
  have hget : (RangoEngine.mutationDocument nodeId m).get "_rev" = some (.string m.rev.text) := by
    unfold RangoEngine.mutationDocument
    cases hpatch : m.patch with
    | none => simp [RangoEngine.tombstone]
    | some doc => exact hpatch_rev doc hpatch
  simp [docRevision, Document.getStr, hget, hrev, Except.toOption]

namespace Mutation.Replayable
variable {m : Mutation}

lemma applicable (h : m.Replayable) : m.Applicable := by
  refine ⟨h.metadata, ?_⟩
  have hkey := h.targetKey
  rw [Mutation.targetKey, Option.map_eq_some_iff] at hkey
  obtain ⟨b, hb, -⟩ := hkey
  rw [hb]
  rfl

/-- The stored document's revision is the mutation's. -/
lemma docRevision_eq (h : m.Replayable) (nodeId : String) :
    docRevision (RangoEngine.mutationDocument nodeId m) = m.rev :=
  docRevision_mutationDocument h.rev h.patch_rev nodeId

/-- The version that a node stores for the mutation does not depend on the node. -/
lemma version_eq (h : m.Replayable) (nodeId : String) :
    Rango.version (RangoEngine.mutationDocument nodeId m) = m.version := by
  unfold Rango.version Mutation.version
  rw [h.docRevision_eq nodeId]
  cases hpatch : m.patch with
  | none =>
    simp [Mutation.deletes, RangoEngine.mutationDocument, RangoEngine.tombstone, hpatch,
      isDeleted, Document.getBool]
  | some doc => simp [Mutation.deletes, RangoEngine.mutationDocument, hpatch]

/-- Delivering a mutation to the documents delivers its version to the registers. -/
theorem versions_deliver (h : m.Replayable) (default : CollectionName) (nodeId : String)
    (D : DocMap) :
    versions (deliver default nodeId D m)
      = Register.deliver (Mutation.place default) Mutation.version (versions D) m := by
  funext k
  simp only [deliver, h.targetKey, Register.deliver]
  by_cases hk : k = m.place default
  · subst hk
    rw [Function.update_self]
    simp only [versions, Mutation.place, DocMap.set_self, Option.map_some]
    rw [version_resolve, h.version_eq]
  · rw [Function.update_of_ne hk]
    unfold versions
    rw [DocMap.set_of_ne]
    exact fun hc => hk (Prod.ext hc.1 hc.2)

end Mutation.Replayable

/-- The same for a whole list of mutations. -/
lemma versions_foldl_deliver {ms : List Mutation} (h : ∀ m ∈ ms, m.Replayable)
    (default : CollectionName) (nodeId : String) (D : DocMap) :
    versions (ms.foldl (deliver default nodeId) D)
      = ms.foldl (Register.deliver (Mutation.place default) Mutation.version) (versions D) := by
  induction ms generalizing D with
  | nil => rfl
  | cons m rest ih =>
    rw [List.foldl_cons, List.foldl_cons, ih fun x hx => h x (List.mem_cons_of_mem _ hx),
      (h m List.mem_cons_self).versions_deliver]

namespace RangoEngine

/-! ## Delivering batches -/

/-- The engine after it applied the batches one after another. -/
def applyBatches {σ ω : Type} [StorageEngine σ] (default : CollectionName)
    (e : RangoEngine σ ω) (batches : List (List Mutation)) : RangoEngine σ ω :=
  batches.foldl (fun e b => (e.applyMutationsDeterministic default b).2) e

/-- The answer of `findOne`, compared without `_conflicts`. -/
def visible {σ ω : Type} [StorageEngine σ] (e : RangoEngine σ ω) (c : CollectionName)
    (id : DocumentId) : Except RangoError (Option Document) :=
  (e.findOne c id).map (Option.map (·.remove "_conflicts"))

variable {σ ω : Type} [MapStorage σ]

/-- The mutations in the order in which the batches apply them. -/
def applied (batches : List (List Mutation)) : List Mutation :=
  (batches.map (·.insertionSort CanonicalLe)).flatten

omit [MapStorage σ] in
lemma applied_perm (batches : List (List Mutation)) : (applied batches).Perm batches.flatten := by
  induction batches with
  | nil => exact List.Perm.refl _
  | cons b rest ih => exact (List.perm_insertionSort _ b).append ih

/-- Batches of one mutation each are applied as they come. -/
lemma applied_singletons (ms : List Mutation) : applied (ms.map fun m => [m]) = ms := by
  induction ms with
  | nil => rfl
  | cons m rest ih => exact congrArg (m :: ·) ih

/-- What an engine answers is what its registers show. -/
lemma visible_eq (e : RangoEngine σ ω) (c : CollectionName) (id : DocumentId) :
    e.visible c id
      = .ok (Register.visible (versions (docMap e.storage) (c, id.toString))) := by
  simp only [visible, findOne, storageGet_eq, versions]
  cases docMap e.storage c id.toString with
  | none => rfl
  | some d => cases h : isDeleted d <;> simp [h, Except.map, Rango.version, Option.filter]

/-- After the batches, the registers hold what the mutations bring them in turn. -/
theorem versions_applyBatches (default : CollectionName) (batches : List (List Mutation))
    (e : RangoEngine σ ω) (hwf : ∀ m ∈ batches.flatten, m.Replayable)
    (hdist : batches.flatten.Pairwise fun a b => a.writeId ≠ b.writeId)
    (hnew : ∀ m ∈ batches.flatten, m.writeId ∉ e.appliedWriteIds) :
    versions (docMap (applyBatches default e batches).storage)
      = (applied batches).foldl (Register.deliver (Mutation.place default) Mutation.version)
          (versions (docMap e.storage)) := by
  induction batches generalizing e with
  | nil => rfl
  | cons b rest ih =>
    have hsort := List.perm_insertionSort CanonicalLe b
    rw [List.flatten_cons, List.pairwise_append] at hdist
    have hmem : ∀ m ∈ b.insertionSort CanonicalLe, m ∈ (b :: rest).flatten := fun m hm =>
      List.mem_append_left _ (hsort.mem_iff.mp hm)
    -- the whole batch is applied, since its write ids are new
    have hkept : (plan e.appliedWriteIds (b.insertionSort CanonicalLe)).kept
        = b.insertionSort CanonicalLe :=
      plan_kept_of_new (fun m hm => (hwf m (hmem m hm)).applicable)
        (fun m hm => (hwf m (hmem m hm)).writeId) (fun m hm => hnew m (hmem m hm))
        ((hsort.pairwise_iff fun h => Ne.symm h).mpr hdist.1)
    obtain ⟨-, hfol⟩ := applyMutationsDeterministic_eq e default b
    rw [applied, List.map_cons, List.flatten_cons, List.foldl_append]
    refine (ih _ (fun m hm => hwf m (List.mem_append_right _ hm)) hdist.2.1 ?_).trans ?_
    · -- the write ids of later batches are still new
      intro m hm hin
      rw [hfol.ids] at hin
      rcases mem_plan_ids hin with hold | ⟨-, x, hx, heq⟩
      · exact hnew m (List.mem_append_right _ hm) hold
      · exact hdist.2.2 x (hsort.mem_iff.mp hx) m hm heq
    · rw [hfol.docs, hkept, versions_foldl_deliver fun m hm => hwf m (hmem m hm)]
      rfl

/-! ## When replicas converge -/

/-- No documents and no recorded write ids. -/
structure Fresh (e : RangoEngine σ ω) : Prop where
  docs : docMap e.storage = DocMap.empty
  ids : e.appliedWriteIds = []

/-- On a fresh engine the batches replay their mutations on empty registers. -/
lemma Fresh.versions_applyBatches {e : RangoEngine σ ω} (h : e.Fresh)
    (default : CollectionName) {ms : List Mutation} (hms : ReplicaSet ms)
    {batches : List (List Mutation)} (hb : batches.flatten.Perm ms) :
    versions (docMap (applyBatches default e batches).storage)
      = Register.replay (Mutation.place default) Mutation.version (applied batches) := by
  rw [RangoEngine.versions_applyBatches default batches e
    (fun m hm => (hms.wellFormed m (hb.mem_iff.mp hm)).replayable)
    ((hb.pairwise_iff fun h => Ne.symm h).mpr hms.writeIds)
    (fun m _ => by simp [h.ids]), h.docs]
  rfl

end RangoEngine

/-- Every document that receives a live mutation has a live one as its latest. -/
def LiveLatest (default : CollectionName) (ms : List Mutation) : Prop :=
  ∀ m ∈ ms, m.deletes = false →
    ∃ top ∈ ms, top.place default = m.place default ∧ top.deletes = false ∧
      ∀ m' ∈ ms, m'.place default = m.place default → m'.rev.cmp top.rev ≠ .gt

omit [Formatting] in
lemma isSome_body_version (m : Mutation) : m.version.body.isSome = !m.deletes := by
  unfold Mutation.version Mutation.deletes
  cases m.patch with
  | none => rfl
  | some doc => cases h : isDeleted doc <;> simp [h]

lemma hasLiveTop_iff (default : CollectionName) (ms : List Mutation) (m : Mutation) :
    Register.HasLiveTop (Mutation.place default) Mutation.version ms m ↔
      ∃ top ∈ ms, top.place default = m.place default ∧ top.deletes = false ∧
        ∀ m' ∈ ms, m'.place default = m.place default → m'.rev.cmp top.rev ≠ .gt := by
  simp only [Register.HasLiveTop, isSome_body_version, Bool.not_eq_true', Revision.cmp_eq_gt,
    ne_eq, not_lt]
  rfl

/-- Two fresh replicas answer alike after every two deliveries of a set of mutations exactly
when every document that receives a live mutation has a live one as its latest. -/
theorem replicas_converge_iff {σ₁ ω₁ σ₂ ω₂ : Type} [MapStorage σ₁] [MapStorage σ₂]
    (default : CollectionName) {e₁ : RangoEngine σ₁ ω₁} {e₂ : RangoEngine σ₂ ω₂}
    (h₁ : e₁.Fresh) (h₂ : e₂.Fresh) {ms : List Mutation} (hms : ReplicaSet ms) :
    (∀ b₁ b₂ : List (List Mutation), b₁.flatten.Perm ms → b₂.flatten.Perm ms → ∀ c id,
      (e₁.applyBatches default b₁).visible c id = (e₂.applyBatches default b₂).visible c id) ↔
    LiveLatest default ms := by
  have hstamps : ms.Pairwise fun a b => a.version.stamp ≠ b.version.stamp :=
    hms.revs.imp fun h heq => h (Revision.cmp_eq_eq.mpr heq)
  have hiff := Register.converges_iff (Mutation.place default) Mutation.version hstamps
  simp only [isSome_body_version, Bool.not_eq_true', hasLiveTop_iff] at hiff
  refine Iff.trans ?_ hiff
  constructor
  · intro h xs ys hx hy k
    -- deliver `xs` and `ys` one mutation at a time
    have hflat : ∀ zs : List Mutation, (zs.map fun m => [m]).flatten = zs := fun zs => by
      rw [← List.flatMap_def, List.flatMap_singleton']
    have hxs := hflat xs
    have hys := hflat ys
    by_cases hk : ∃ m ∈ ms, m.place default = k
    · obtain ⟨m, -, rfl⟩ := hk
      have hsame := h (xs.map fun m => [m]) (ys.map fun m => [m]) (by rwa [hxs]) (by rwa [hys])
        (RangoEngine.mutationCollection default m) m.docId
      rw [RangoEngine.visible_eq, RangoEngine.visible_eq,
        h₁.versions_applyBatches default hms (by rwa [hxs]),
        h₂.versions_applyBatches default hms (by rwa [hys]),
        RangoEngine.applied_singletons, RangoEngine.applied_singletons] at hsame
      exact Except.ok.inj hsame
    · -- nothing is filed at `k`
      have hnone : ∀ zs : List Mutation, zs.Perm ms →
          Register.received (Mutation.place default) Mutation.version zs k = [] := by
        intro zs hz
        refine List.eq_nil_iff_forall_not_mem.mpr fun w hw => ?_
        obtain ⟨m, hm, hmk, -⟩ := Register.mem_received.mp hw
        exact hk ⟨m, hz.mem_iff.mp hm, hmk⟩
      rw [Register.replay_apply, Register.replay_apply, hnone xs hx, hnone ys hy]
  · intro h b₁ b₂ hb₁ hb₂ c id
    rw [RangoEngine.visible_eq, RangoEngine.visible_eq, h₁.versions_applyBatches default hms hb₁,
      h₂.versions_applyBatches default hms hb₂]
    exact congrArg Except.ok (h _ _ ((RangoEngine.applied_perm b₁).trans hb₁)
      ((RangoEngine.applied_perm b₂).trans hb₂) (c, id.toString))

end

section
attribute [local instance] Formatting.sample

lemma sampleNode_fresh (nodeId : String) : (sampleNode nodeId).Fresh :=
  ⟨MemoryStorage.docMap_new, rfl⟩

lemma replicaSet_sample : ReplicaSet [sampleInsert, sampleDelete] where
  wellFormed m hm := by
    have hmem : m = sampleInsert ∨ m = sampleDelete := by simpa using hm
    rcases hmem with rfl | rfl
    · exact ⟨by decide, by decide, by decide, by decide, by decide⟩
    · exact ⟨by decide, by decide, by decide, by decide, by decide⟩
  writeIds := by decide
  revs := by decide

/-- The document once more. -/
def sampleAgain : Mutation :=
  .sample "c" "tenant" "d" .insert
    (some ⟨[("_id", .string "d"), ("_rev", .string "3-0-aaaa")]⟩) 3 "3-0-aaaa" "w3"

lemma replicaSet_again : ReplicaSet [sampleInsert, sampleDelete, sampleAgain] where
  wellFormed m hm := by
    have hmem : m = sampleInsert ∨ m = sampleDelete ∨ m = sampleAgain := by simpa using hm
    rcases hmem with rfl | rfl | rfl
    · exact ⟨by decide, by decide, by decide, by decide, by decide⟩
    · exact ⟨by decide, by decide, by decide, by decide, by decide⟩
    · exact ⟨by decide, by decide, by decide, by decide, by decide⟩
  writeIds := by decide
  revs := by decide

/-- A document that is deleted and inserted again reaches two replicas in the same form, in
whatever order and cut they get the three. -/
theorem replicas_converge_iff_again :
    LiveLatest ⟨"c"⟩ [sampleInsert, sampleDelete, sampleAgain] ∧
    ∀ b₁ b₂ : List (List Mutation), b₁.flatten.Perm [sampleInsert, sampleDelete, sampleAgain] →
      b₂.flatten.Perm [sampleInsert, sampleDelete, sampleAgain] → ∀ c id,
        ((sampleNode "a").applyBatches ⟨"c"⟩ b₁).visible c id
          = ((sampleNode "b").applyBatches ⟨"c"⟩ b₂).visible c id := by
  have hlive : LiveLatest ⟨"c"⟩ [sampleInsert, sampleDelete, sampleAgain] := by
    unfold LiveLatest
    decide
  exact ⟨hlive, (replicas_converge_iff ⟨"c"⟩ (sampleNode_fresh "a") (sampleNode_fresh "b")
    replicaSet_again).mpr hlive⟩

/-- A document inserted and then deleted: a replica that hears of the deletion first shows
the document in the end, one that hears of the insert first does not. -/
theorem deletion_then_insert_diverges :
    ReplicaSet [sampleInsert, sampleDelete] ∧
    [[sampleInsert], [sampleDelete]].flatten.Perm [sampleInsert, sampleDelete] ∧
    [[sampleDelete], [sampleInsert]].flatten.Perm [sampleInsert, sampleDelete] ∧
    ((sampleNode "a").applyBatches ⟨"c"⟩ [[sampleInsert], [sampleDelete]]).visible ⟨"c"⟩
        ⟨.string "d"⟩ = .ok none ∧
    ((sampleNode "b").applyBatches ⟨"c"⟩ [[sampleDelete], [sampleInsert]]).visible ⟨"c"⟩
        ⟨.string "d"⟩ = .ok sampleInsert.patch :=
  ⟨replicaSet_sample, List.Perm.refl _, List.Perm.swap _ _ _, by decide, by decide⟩

end
end Rango
