import Rango.Core.FilingTheorems

/-!
# Runs of an engine

What a run of inserts, updates, deletes and applied batches can do to the two things a
restore depends on: local writes record no write ids, and only an update that changes
`_id` files a document under another id than its own. With `restore_forgets_iff` this says
after which runs a restore is as good as one on a fresh engine.
-/

namespace Rango

/-! ## Updates that leave `_id` alone -/

/-- No operator of the update names the field. -/
def Spares (update : Document) (field : String) : Prop :=
  ∀ kv ∈ update.entries, ∀ operand, kv.2.asDocument = some operand →
    ∀ kv' ∈ operand.entries, kv'.1 ≠ field

/-- An update makes no edit of a field that it does not name. -/
lemma Spares.fieldEdits_eq {update : Document} {field : String} (h : Spares update field) :
    fieldEdits update field = [] := by
  refine List.flatMap_eq_nil_iff.mpr fun kv hkv => ?_
  unfold operatorEdits
  cases hd : kv.2.asDocument with
  | none => rfl
  | some operand =>
    refine List.map_eq_nil_iff.mpr (List.filter_eq_nil_iff.mpr fun kv' hkv' => ?_)
    simpa using h kv hkv operand hd kv' hkv'

/-- An update keeps the fields it does not name. -/
lemma get_applyUpdate_of_spares [Arithmetic] {doc doc' update : Document} {field : String}
    (hs : Spares update field) (h : applyUpdate doc update = .ok doc') :
    doc'.get field = doc.get field := by
  rw [get_applyUpdate h, hs.fieldEdits_eq, List.foldl_nil]

/-- The write ids that a step can record. -/
def EngineStep.writeIds : EngineStep → List String
  | .applyBatch _ mutations => mutations.map Mutation.writeId
  | _ => []

/-- The step files no document under another id than its own. -/
def EngineStep.KeepsIds : EngineStep → Prop
  | .update _ _ upd _ => Spares upd "_id"
  | _ => True

namespace RangoEngine

variable {σ ω : Type}

/-! ## Local writes -/

variable [Formatting] [MapStorage σ]

/-- What a local write can do: nothing, or put one document with property `P` at its id. -/
structure Writes (e e' : RangoEngine σ ω) (c : CollectionName) (id : DocumentId)
    (P : Document → Prop) : Prop where
  nodeId : e'.nodeId = e.nodeId
  ids : e'.appliedWriteIds = e.appliedWriteIds
  docs : docMap e'.storage = docMap e.storage ∨
    ∃ d, P d ∧ docMap e'.storage = (docMap e.storage).set c id.toString (some d)

variable [Oplog ω] [BsonCodec] [MutationHasher] [Arithmetic]

/-- On a map, a local write puts the document that it goes for, if any. -/
lemma step_writes (e : RangoEngine σ ω) {s : EngineStep} (hs : s.clock.isSome) :
    ∃ c id, Writes e (e.step s) c id fun d => ∃ w ∈ e.planned s, d = w.doc := by
  have hstored : docMap (e.step s).storage = _ := step_stored e hs
  cases hplan : e.planned s with
  | none =>
    rw [hplan] at hstored
    exact ⟨s.collection, ⟨.null⟩, (step_frame e hs).1, (step_frame e hs).2, Or.inl hstored⟩
  | some w =>
    obtain ⟨e', hput, -⟩ := storagePut_eq (e.look s).2 w.collection w.id w.doc
    rw [hplan] at hstored
    dsimp only at hstored
    rw [hput] at hstored
    exact ⟨w.collection, w.id, (step_frame e hs).1, (step_frame e hs).2,
      Or.inr ⟨w.doc, ⟨w, rfl, rfl⟩, hstored⟩⟩

/-! ## Runs -/

/-- Every local write leaves the node id and the recorded write ids; a batch leaves the node
id and records at most its own write ids. -/
theorem step_spec (e : RangoEngine σ ω) (s : EngineStep) :
    (e.step s).nodeId = e.nodeId ∧
      ∀ w ∈ (e.step s).appliedWriteIds, w ∈ e.appliedWriteIds ∨ w ∈ s.writeIds := by
  have hlocal : s.clock.isSome → (e.step s).nodeId = e.nodeId ∧
      ∀ w ∈ (e.step s).appliedWriteIds, w ∈ e.appliedWriteIds ∨ w ∈ s.writeIds := by
    intro hs
    obtain ⟨c, id, h⟩ := step_writes e hs
    exact ⟨h.nodeId, fun w hw => Or.inl (h.ids ▸ hw)⟩
  cases s with
  | insert c doc t => exact hlocal rfl
  | update c id update t => exact hlocal rfl
  | delete c id t => exact hlocal rfl
  | applyBatch default mutations =>
    obtain ⟨-, h⟩ := applyMutationsDeterministic_eq e default mutations
    refine ⟨h.nodeId, fun w hw => ?_⟩
    rcases mem_plan_ids (h.ids ▸ hw) with hold | ⟨-, m, hm, rfl⟩
    · exact Or.inl hold
    · exact Or.inr (List.mem_map_of_mem ((List.mem_insertionSort _).mp hm))

omit [Oplog ω] in
/-- A step that leaves `_id` alone is one that keeps it. -/
lemma keepsId_of_keepsIds {e : RangoEngine σ ω} {s : EngineStep} (h : s.KeepsIds) :
    e.KeepsId (.step s) := by
  cases s with
  | update c id update t =>
    intro w _ _ doc _
    rw [KeepsPrintedId, Spares.fieldEdits_eq h]
    rfl
  | insert => trivial
  | delete => trivial
  | applyBatch => trivial

/-- A step that keeps ids keeps every collection in order. -/
theorem step_filed {e : RangoEngine σ ω} {s : EngineStep} (hs : s.KeepsIds)
    (h : ∀ c, Filed (docMap e.storage) c) (c : CollectionName) :
    Filed (docMap (e.step s).storage) c :=
  (call_inPlace_iff (e := e) h (.step s)).mpr (keepsId_of_keepsIds hs) c

theorem run_nodeId (e : RangoEngine σ ω) (steps : List EngineStep) :
    (e.run steps).nodeId = e.nodeId := by
  induction steps generalizing e with
  | nil => rfl
  | cons s rest ih => exact (ih (e.step s)).trans (step_spec e s).1

/-- A run records at most the write ids of its batches. -/
theorem mem_run_appliedWriteIds {e : RangoEngine σ ω} {steps : List EngineStep} {w : String}
    (h : w ∈ (e.run steps).appliedWriteIds) :
    w ∈ e.appliedWriteIds ∨ ∃ s ∈ steps, w ∈ s.writeIds := by
  induction steps generalizing e with
  | nil => exact Or.inl h
  | cons s rest ih =>
    rcases ih h with hstep | ⟨x, hx, hw⟩
    · exact ((step_spec e s).2 w hstep).imp_right fun hw => ⟨s, List.mem_cons_self, hw⟩
    · exact Or.inr ⟨x, List.mem_cons_of_mem _ hx, hw⟩

/-- A run of steps that keep ids keeps every collection in order. -/
theorem run_filed {e : RangoEngine σ ω} {steps : List EngineStep}
    (hs : ∀ s ∈ steps, s.KeepsIds) (h : ∀ c, Filed (docMap e.storage) c) (c : CollectionName) :
    Filed (docMap (e.run steps).storage) c := by
  induction steps generalizing e with
  | nil => exact h c
  | cons s rest ih =>
    exact ih (fun x hx => hs x (List.mem_cons_of_mem _ hx))
      (step_filed (hs s List.mem_cons_self) h)

/-! ## Restoring after a run -/

variable {σ' ω' : Type} [MapStorage σ']

/-- After a run from empty storage whose updates spare `_id` and whose batches carry no write
id of the replay, a restore gives what a fresh engine would give. -/
theorem restore_after_run {s : σ} (hempty : docMap s = DocMap.empty) (o : ω) (nodeId : String)
    {steps : List EngineStep} (hkeep : ∀ x ∈ steps, x.KeepsIds)
    {f : RangoEngine σ' ω'} (hf : f.Fresh) (hnode : f.nodeId = nodeId) {c : CollectionName}
    {snapshot : SnapshotUnit} (hns : snapshot.nameSpace = c.name) {replay : List Mutation}
    (hnew : ∀ m ∈ replay, ∀ x ∈ steps, m.writeId ∉ x.writeIds) :
    docMap (((openEngine s o nodeId).run steps).restoreFromSnapshot c snapshot
        replay).2.storage c
      = docMap (f.restoreFromSnapshot c snapshot replay).2.storage c := by
  have hfiled := run_filed (e := openEngine s o nodeId) hkeep
    (fun c => by rw [show docMap (openEngine s o nodeId).storage = _ from hempty]
                 exact filed_empty c) c
  refine restore_eq_fresh hf (hnode.trans (run_nodeId (openEngine s o nodeId) steps).symm)
    hfiled.wipeable hns ?_
  intro m hm _ hin
  rcases mem_run_appliedWriteIds hin with hold | ⟨x, hx, hw⟩
  · cases hold
  · exact hnew m hm x hx hw

/-- **What a restore after a run depends on.** For every run of inserts, updates, deletes and
applied batches on an opened engine, every collection and every set of write ids: the
restores that replay these write ids leave the collection as on a fresh engine exactly when,
after the run, every occupied place of the collection is the id that some document of it
carries, and none of the write ids is recorded. -/
theorem run_restore_forgets_iff (s : σ) (o : ω) (nodeId : String) (steps : List EngineStep)
    {f : RangoEngine σ' ω'} (hf : f.Fresh) (hnode : f.nodeId = nodeId) (c : CollectionName)
    (W : Set String) :
    (∀ snapshot replay n, (∀ m ∈ replay, m.writeId ∈ W) →
      (((openEngine s o nodeId).run steps).restoreFromSnapshot c snapshot replay).1 = .ok n →
        ∀ k, docMap (((openEngine s o nodeId).run steps).restoreFromSnapshot c snapshot
            replay).2.storage c k
          = docMap (f.restoreFromSnapshot c snapshot replay).2.storage c k) ↔
    Wipeable (docMap ((openEngine s o nodeId).run steps).storage) c ∧
      ∀ w ∈ W, w ≠ "" → w ∉ ((openEngine s o nodeId).run steps).appliedWriteIds :=
  restore_forgets_iff hf (hnode.trans (run_nodeId (openEngine s o nodeId) steps).symm) c W

end RangoEngine

section
attribute [local instance] Formatting.sample MutationHasher.sample Arithmetic.sample

/-- A codec for runs that encode nothing. -/
@[reducible] def emptyCodec : BsonCodec := .ofTable [] []

attribute [local instance] emptyCodec

/-- One batch with one insert. -/
def sampleRunSteps : List EngineStep := [.applyBatch ⟨"c"⟩ [sampleInsert]]

abbrev sampleRunEngine : RangoEngine MemoryStorage NullOplog :=
  (RangoEngine.openEngine MemoryStorage.new ⟨0⟩ "a").run sampleRunSteps

/-- After the batch, for a write id that it did not carry. -/
theorem RangoEngine.run_restore_forgets_iff_insert :
    (∀ snapshot replay n, (∀ m ∈ replay, m.writeId ∈ ({"w2"} : Set String)) →
      (sampleRunEngine.restoreFromSnapshot ⟨"c"⟩ snapshot replay).1 = .ok n →
        ∀ k, docMap (sampleRunEngine.restoreFromSnapshot ⟨"c"⟩ snapshot replay).2.storage ⟨"c"⟩ k
          = docMap ((sampleNode "a").restoreFromSnapshot ⟨"c"⟩ snapshot replay).2.storage
              ⟨"c"⟩ k) ↔
    Wipeable (docMap sampleRunEngine.storage) ⟨"c"⟩ ∧
      ∀ w ∈ ({"w2"} : Set String), w ≠ "" → w ∉ sampleRunEngine.appliedWriteIds :=
  run_restore_forgets_iff MemoryStorage.new (⟨0⟩ : NullOplog) "a" sampleRunSteps
    (sampleNode_fresh "a") rfl
    ⟨"c"⟩ {"w2"}

/-- A restore from an empty snapshot that replays the insert: the engine that has applied it
before skips it, a new one stores the document. -/
theorem restore_skips_recorded_write :
    (sampleRunEngine.restoreFromSnapshot ⟨"c"⟩ (RangoEngine.emptySnapshot ⟨"c"⟩)
        [sampleInsert]).1 = .ok 0 ∧
      docMap (sampleRunEngine.restoreFromSnapshot ⟨"c"⟩ (RangoEngine.emptySnapshot ⟨"c"⟩)
        [sampleInsert]).2.storage ⟨"c"⟩ "\"d\"" = none ∧
      docMap ((sampleNode "a").restoreFromSnapshot ⟨"c"⟩ (RangoEngine.emptySnapshot ⟨"c"⟩)
        [sampleInsert]).2.storage ⟨"c"⟩ "\"d\"" = sampleInsert.patch :=
  ⟨by decide, by decide, by decide⟩

end
end Rango
