import Rango.Lib.Register
import Rango.Storage.Fallible
import Rango.Core.PlanTheorems

/-!
# What applying a batch does to the stored documents

An engine is a document map, a node id and a list of recorded write ids. This module says what
each operation does to them, over a backend that may fail and over one that is a map:

* `applyRemoteMutation` changes one place, to what `resolve` makes of it;
* a pass over a sorted batch is split in two: `plan` decides from the write ids alone which
  mutations are applied and where the pass stops, and the applied ones are then delivered
  one after another, until storage fails (`applyLoop_cases`);
* forgetting the `_conflicts` field, a delivery is a delivery to a last-writer-wins register
  (`versions_deliver`).
-/

namespace Rango

/-! ## Winners, targets -/

/-- A winner keeps all its fields but `_conflicts`. -/
lemma get_addConflict (l w : Document) {key : String} (h : "_conflicts" ≠ key) :
    (addConflict l w).get key = w.get key := by
  unfold addConflict
  split
  · exact Document.get_insert_of_ne _ _ h
  · rfl

lemma remove_addConflict (l w : Document) :
    (addConflict l w).remove "_conflicts" = w.remove "_conflicts" := by
  unfold addConflict
  split
  · exact Document.remove_insert_self _ _ _
  · rfl

lemma isDeleted_addConflict (l w : Document) : isDeleted (addConflict l w) = isDeleted w := by
  unfold isDeleted Document.getBool
  rw [get_addConflict l w (by decide)]

lemma get_mutationDocument (nodeId : String) (m : Mutation) :
    (RangoEngine.mutationDocument nodeId m).get "_id" = m.target := by
  unfold RangoEngine.mutationDocument Mutation.target
  cases m.patch with
  | some doc => rfl
  | none => simp [RangoEngine.tombstone]

section Resolve
variable [Formatting]

/-! ## One place of the document map -/

/-- What a place holds after `doc` is applied to it. -/
def resolve (found : Option Document) (doc : Document) : Document :=
  match found with
  | none => doc
  | some localDoc =>
    if isDeleted localDoc then doc
    else
      match (docRevision doc).cmp (docRevision localDoc) with
      | .gt => addConflict localDoc doc
      | .lt => addConflict doc localDoc
      | .eq => localDoc

lemma docRevision_addConflict (l w : Document) :
    docRevision (addConflict l w) = docRevision w := by
  unfold docRevision Document.getStr
  rw [get_addConflict l w (by decide)]

/-- What a place holds keeps the `_id` of the old or of the new document. -/
lemma get_resolve (found : Option Document) (doc : Document) :
    (resolve found doc).get "_id" = doc.get "_id" ∨
      ∃ l, found = some l ∧ (resolve found doc).get "_id" = l.get "_id" := by
  cases found with
  | none => exact Or.inl rfl
  | some l =>
    unfold resolve
    dsimp only
    split
    · exact Or.inl rfl
    · split
      · exact Or.inl (get_addConflict l doc (by decide))
      · exact Or.inr ⟨l, rfl, get_addConflict doc l (by decide)⟩
      · exact Or.inr ⟨l, rfl, rfl⟩

/-! ## Documents as register versions -/

/-- A document as a version of its place: stamped with its revision, a tombstone when it is
deleted, and with the record of lost conflicts left out. -/
def version (d : Document) : Register.Version (ℕ ×ₗ ℕ ×ₗ String) Document where
  stamp := (docRevision d).key
  body := if isDeleted d then none else some (d.remove "_conflicts")

@[simp] lemma version_addConflict (l w : Document) : version (addConflict l w) = version w := by
  unfold version
  rw [docRevision_addConflict, isDeleted_addConflict, remove_addConflict]

@[simp] lemma isNone_body_version (d : Document) : (version d).body.isNone = isDeleted d := by
  cases h : isDeleted d <;> simp [version, h]

/-- Resolving two documents merges their versions. -/
theorem version_resolve (found : Option Document) (doc : Document) :
    some (version (resolve found doc)) = Register.merge (found.map version) (version doc) := by
  cases found with
  | none => rfl
  | some l =>
    simp only [resolve, Register.merge, Option.map_some, isNone_body_version]
    by_cases hdel : isDeleted l = true
    · rw [if_pos hdel, if_pos hdel]
    rw [if_neg hdel, if_neg hdel]
    cases hcmp : (docRevision doc).cmp (docRevision l) with
    | gt =>
      have hlt : (version l).stamp < (version doc).stamp := Revision.cmp_eq_gt.mp hcmp
      rw [if_pos hlt, version_addConflict]
    | lt =>
      have hlt : (version doc).stamp < (version l).stamp := Revision.cmp_eq_lt.mp hcmp
      rw [if_neg hlt.not_gt, version_addConflict]
    | eq =>
      have heq : (version doc).stamp = (version l).stamp := Revision.cmp_eq_eq.mp hcmp
      rw [if_neg heq.le.not_gt]

/-! ## Delivering a mutation to the document map -/

/-- The printed id a mutation is filed under. -/
def Mutation.targetKey (m : Mutation) : Option String :=
  m.target.map fun b => (DocumentId.fromBson b).toString

/-- The document map after one mutation that is applied. -/
def deliver (default : CollectionName) (nodeId : String) (D : DocMap) (m : Mutation) : DocMap :=
  match m.targetKey with
  | none => D
  | some k =>
    let c := RangoEngine.mutationCollection default m
    D.set c k (some (resolve (D c k) (RangoEngine.mutationDocument nodeId m)))

/-- The place that a mutation's document goes to. -/
def Mutation.filedAt (default : CollectionName) (m : Mutation) :
    Option (CollectionName × String) :=
  m.targetKey.map fun k => (RangoEngine.mutationCollection default m, k)

/-- A delivery changes no other place. -/
lemma deliver_of_ne {default : CollectionName} {m : Mutation} {c : CollectionName} {k : String}
    (h : m.filedAt default ≠ some (c, k)) (nodeId : String) (D : DocMap) :
    deliver default nodeId D m c k = D c k := by
  unfold Mutation.filedAt at h
  unfold deliver
  cases htarget : m.targetKey with
  | none => rfl
  | some k' =>
    rw [htarget] at h
    refine DocMap.set_of_ne _ _ fun hk => h ?_
    rw [hk.1, hk.2]
    rfl

lemma foldl_deliver_of_ne {default : CollectionName} {ms : List Mutation} {c : CollectionName}
    {k : String} (h : ∀ m ∈ ms, m.filedAt default ≠ some (c, k)) (nodeId : String) (D : DocMap) :
    ms.foldl (deliver default nodeId) D c k = D c k := by
  induction ms generalizing D with
  | nil => rfl
  | cons m rest ih =>
    rw [List.foldl_cons, ih fun x hx => h x (List.mem_cons_of_mem _ hx),
      deliver_of_ne (h m List.mem_cons_self)]

end Resolve

namespace RangoEngine

section Rounds
variable {σ ω : Type} {default : CollectionName} {e : RangoEngine σ ω} {seen : List String}
  {applied : ℕ} {drift : Bool} {m : Mutation}

/-! ## The branches of the batch loop -/

/-- The engine once it has recorded a mutation's write id. -/
def recorded (e : RangoEngine σ ω) (m : Mutation) : RangoEngine σ ω :=
  if m.writeId ≠ "" then { e with appliedWriteIds := m.writeId :: e.appliedWriteIds } else e

lemma appliedWriteIds_recorded : (e.recorded m).appliedWriteIds = record m e.appliedWriteIds := by
  rw [recorded, record]
  split_ifs <;> rfl

lemma nodeId_recorded : (e.recorded m).nodeId = e.nodeId := by
  rw [recorded]
  split_ifs <;> rfl

lemma storage_recorded : (e.recorded m).storage = e.storage := by
  rw [recorded]
  split_ifs <;> rfl

/-- With the mutation's write id, what the batch has seen is still recorded. -/
lemma seen_recorded (hseen : ∀ w ∈ seen, w ∈ e.appliedWriteIds) :
    ∀ w ∈ (if m.writeId ≠ "" then m.writeId :: seen else seen),
      w ∈ record m e.appliedWriteIds := by
  intro w hw
  rw [mem_record]
  split_ifs at hw with hne
  · rcases List.mem_cons.mp hw with rfl | hw
    · exact Or.inl ⟨hne, rfl⟩
    · exact Or.inr (hseen w hw)
  · exact Or.inr (hseen w hw)

variable [Formatting] [StorageEngine σ]

lemma applyLoop_of_invalid {err : String} (hval : m.validateMetadata = .error err)
    (rest : List Mutation) : applyLoop default e seen applied drift (m :: rest) =
      (.error (.sync ("invalid mutation metadata: " ++ err)), e) := by
  rw [applyLoop, hval]

/-- A write id that was seen in the batch. -/
lemma applyLoop_of_seen (hval : m.validateMetadata = .ok ())
    (hs : m.writeId ≠ "" ∧ m.writeId ∈ seen) (rest : List Mutation) :
    applyLoop default e seen applied drift (m :: rest) =
      applyLoop default e seen applied true rest := by
  rw [applyLoop, hval]
  dsimp only
  rw [if_pos hs]

/-- A write id that an earlier batch has recorded. -/
lemma applyLoop_of_dup (hval : m.validateMetadata = .ok ())
    (hfresh : ¬ (m.writeId ≠ "" ∧ m.writeId ∈ seen))
    (hdup : m.writeId ≠ "" ∧ m.writeId ∈ e.appliedWriteIds) (rest : List Mutation) :
    applyLoop default e seen applied drift (m :: rest) =
      applyLoop default e (m.writeId :: seen) applied true rest := by
  rw [applyLoop, hval]
  dsimp only
  rw [if_neg hfresh, if_pos hdup]

/-- Behind the checks, the outcome of the delivery decides. -/
lemma applyLoop_of_new (hval : m.validateMetadata = .ok ())
    (hfresh : ¬ (m.writeId ≠ "" ∧ m.writeId ∈ seen))
    (hnew : ¬ (m.writeId ≠ "" ∧ m.writeId ∈ e.appliedWriteIds)) (rest : List Mutation) :
    applyLoop default e seen applied drift (m :: rest) =
      match (e.recorded m).applyRemoteMutation (mutationCollection default m)
          (mutationDocument (e.recorded m).nodeId m) with
      | (.error err, e') => (.error err, e')
      | (.ok (), e') => applyLoop default e' (if m.writeId ≠ "" then m.writeId :: seen else seen)
          (applied + 1) drift rest := by
  rw [applyLoop, hval]
  dsimp only
  rw [if_neg hfresh, if_neg hnew]
  rfl

end Rounds

section Spec
variable {σ ω : Type} [Formatting] [FallibleStorage σ]

/-! ## The storage calls -/

lemma storageGet_stored (e : RangoEngine σ ω) (c : CollectionName) (id : DocumentId) :
    stored (e.storageGet c id).2.storage = stored e.storage ∧
      ∀ found, (e.storageGet c id).1 = .ok found → found = stored e.storage c id.toString :=
  FallibleStorage.get_spec c id e.storage

lemma storagePut_stored (e : RangoEngine σ ω) (c : CollectionName) (id : DocumentId)
    (d : Document) : stored (e.storagePut c id d).2.storage =
      settle (e.storagePut c id d).1 (stored e.storage)
        ((stored e.storage).set c id.toString (some d)) :=
  FallibleStorage.put_spec c id d e.storage

/-- A call that reads a document first and goes through has found one. -/
lemma stored_of_found {ε β : Type} {e e' : RangoEngine σ ω} {c : CollectionName}
    {id : DocumentId} {fault : RangoError → ε} {missing : Except ε β} {v : β}
    {rest : Document → RangoEngine σ ω → Except ε β × RangoEngine σ ω}
    (h : (match e.storageGet c id with
      | (.error err, e) => (.error (fault err), e)
      | (.ok none, e) => (missing, e)
      | (.ok (some doc), e) => rest doc e) = (.ok v, e')) (hmissing : missing ≠ .ok v) :
    ∃ doc e₁, stored e.storage c id.toString = some doc ∧
      stored e₁.storage = stored e.storage ∧ e₁.nodeId = e.nodeId ∧ rest doc e₁ = (.ok v, e') := by
  obtain ⟨hkeeps, hfound⟩ := storageGet_stored e c id
  have hnode : (e.storageGet c id).2.nodeId = e.nodeId := rfl
  rcases hget : e.storageGet c id with ⟨r, e₁⟩
  rw [hget] at h hkeeps hfound hnode
  cases r with
  | error err => cases congrArg Prod.fst h
  | ok found =>
    cases found with
    | none => exact absurd (congrArg Prod.fst h) hmissing
    | some doc => exact ⟨doc, e₁, (hfound _ rfl).symm, hkeeps, hnode, h⟩

/-! ## One remote mutation -/

/-- A document with an `_id` is resolved against what its place holds, or nothing happens. -/
lemma applyRemoteMutation_stored (e : RangoEngine σ ω) (c : CollectionName) {doc : Document}
    {b : Bson} (h : doc.get "_id" = some b) :
    (e.applyRemoteMutation c doc).2 =
        { e with storage := (e.applyRemoteMutation c doc).2.storage } ∧
      stored (e.applyRemoteMutation c doc).2.storage =
        settle (e.applyRemoteMutation c doc).1 (stored e.storage)
          ((stored e.storage).set c (DocumentId.fromBson b).toString
            (some (resolve (stored e.storage c (DocumentId.fromBson b).toString) doc))) := by
  set id := DocumentId.fromBson b with hid
  have hrest : (e.storageGet c id).2 = { e with storage := (e.storageGet c id).2.storage } := rfl
  obtain ⟨hget, hfound⟩ := storageGet_stored e c id
  simp only [applyRemoteMutation, h]
  rw [← hid]
  rcases hcall : e.storageGet c id with ⟨r, e'⟩
  rw [hcall] at hrest hget hfound
  cases r with
  | error err => exact ⟨hrest, hget⟩
  | ok found =>
    have hput : ∀ d, (e'.storagePut c id d).2 =
          { e with storage := (e'.storagePut c id d).2.storage } ∧
        stored (e'.storagePut c id d).2.storage = settle (e'.storagePut c id d).1
          (stored e.storage) ((stored e.storage).set c id.toString (some d)) := by
      intro d
      have hstored := storagePut_stored e' c id d
      rw [hget] at hstored
      have he' : e' = { e with storage := e'.storage } := hrest
      refine ⟨?_, hstored⟩
      rw [he']
      rfl
    have hthere : stored e.storage c id.toString = found := (hfound found rfl).symm
    rw [hthere]
    cases found with
    | none => exact hput doc
    | some l =>
      dsimp only
      by_cases hdel : isDeleted l = true
      · rw [if_pos hdel, resolve, if_pos hdel]
        exact hput doc
      · rw [if_neg hdel, resolve, if_neg hdel]
        cases (docRevision doc).cmp (docRevision l) with
        | gt => exact hput (addConflict l doc)
        | lt => exact hput (addConflict doc l)
        | eq =>
          refine ⟨hrest, ?_⟩
          show stored e'.storage = (stored e.storage).set c id.toString (some l)
          rw [hget, ← hthere, DocMap.set_get]

/-! ## One turn of the batch loop -/

/-- `e'` is what `e` becomes once `kept` is delivered and the write ids `ids` are recorded, the
metrics apart. -/
structure Left (default : CollectionName) (e e' : RangoEngine σ ω) (kept : List Mutation)
    (ids : List String) : Prop where
  docs : stored e'.storage = kept.foldl (deliver default e.nodeId) (stored e.storage)
  nodeId : e'.nodeId = e.nodeId
  ids : e'.appliedWriteIds = ids

lemma Left.trans {default : CollectionName} {e e₁ e₂ : RangoEngine σ ω}
    {kept kept' : List Mutation} {ids ids' : List String} (h : Left default e e₁ kept ids)
    (h' : Left default e₁ e₂ kept' ids') : Left default e e₂ (kept ++ kept') ids' where
  docs := by rw [h'.docs, h.nodeId, h.docs, List.foldl_append]
  nodeId := h'.nodeId.trans h.nodeId
  ids := h'.ids

/-- What one turn of the loop does with a mutation, whichever follow: it is stopped by it, skips
it, applies it, or takes it up and is failed by storage. -/
inductive Turn (default : CollectionName) (e : RangoEngine σ ω) (seen : List String)
    (applied : ℕ) (drift : Bool) (m : Mutation) : Prop
  | stops {err : RangoError} {ids : List String} {e' : RangoEngine σ ω}
      (hplan : ∀ rest, plan e.appliedWriteIds (m :: rest) = ⟨[], some err, ids⟩)
      (hleft : Left default e e' [] ids)
      (hloop : ∀ rest, applyLoop default e seen applied drift (m :: rest) = (.error err, e'))
  | skips {seen' : List String} (hval : m.validateMetadata = .ok ())
      (hdup : m.writeId ≠ "" ∧ m.writeId ∈ e.appliedWriteIds)
      (hseen : ∀ w ∈ seen', w ∈ e.appliedWriteIds)
      (hloop : ∀ rest, applyLoop default e seen applied drift (m :: rest) =
        applyLoop default e seen' applied true rest)
  | applies {seen' : List String} {e' : RangoEngine σ ω} (happ : m.Applicable)
      (hnew : ¬ (m.writeId ≠ "" ∧ m.writeId ∈ e.appliedWriteIds))
      (hleft : Left default e e' [m] (record m e.appliedWriteIds))
      (hseen : ∀ w ∈ seen', w ∈ e'.appliedWriteIds)
      (hloop : ∀ rest, applyLoop default e seen applied drift (m :: rest) =
        applyLoop default e' seen' (applied + 1) drift rest)
  | fails {err : RangoError} {e₁ e' : RangoEngine σ ω} (happ : m.Applicable)
      (hnew : ¬ (m.writeId ≠ "" ∧ m.writeId ∈ e.appliedWriteIds))
      (hleft : Left default e e' [] (record m e.appliedWriteIds))
      (hfail : (e₁.applyRemoteMutation (mutationCollection default m)
        (mutationDocument e₁.nodeId m)).1 = .error err)
      (hloop : ∀ rest, applyLoop default e seen applied drift (m :: rest) = (.error err, e'))

section Turns
variable {default : CollectionName} {e : RangoEngine σ ω} {seen : List String} {applied : ℕ}
  {drift : Bool} {m : Mutation}

/-- A recorded write id is skipped, by one of the two sets. -/
lemma turn_of_recorded (hval : m.validateMetadata = .ok ())
    (hdup : m.writeId ≠ "" ∧ m.writeId ∈ e.appliedWriteIds)
    (hseen : ∀ w ∈ seen, w ∈ e.appliedWriteIds) : Turn default e seen applied drift m := by
  by_cases hs : m.writeId ≠ "" ∧ m.writeId ∈ seen
  · exact .skips hval hdup hseen (applyLoop_of_seen hval hs)
  · have hseen' : ∀ w ∈ m.writeId :: seen, w ∈ e.appliedWriteIds :=
      List.forall_mem_cons.mpr ⟨hdup.2, hseen⟩
    exact .skips hval hdup hseen' (applyLoop_of_dup hval hs hdup)

/-- A mutation without a place to go stops the loop. -/
lemma turn_of_no_target (hval : m.validateMetadata = .ok ())
    (hnew : ¬ (m.writeId ≠ "" ∧ m.writeId ∈ e.appliedWriteIds))
    (hseen : ∀ w ∈ seen, w ∈ e.appliedWriteIds) (htarget : m.target = none) :
    Turn default e seen applied drift m := by
  have hfresh : ¬ (m.writeId ≠ "" ∧ m.writeId ∈ seen) := fun h => hnew ⟨h.1, hseen _ h.2⟩
  have hid : (mutationDocument (e.recorded m).nodeId m).get "_id" = none := by
    rw [get_mutationDocument, htarget]
  have hplan : ∀ rest, plan e.appliedWriteIds (m :: rest) =
      ⟨[], some (.documentNotFound "missing _id"), record m e.appliedWriteIds⟩ := by
    intro rest
    rw [plan_cons, hval]
    dsimp only
    rw [if_neg hnew, htarget]
  have hleft : Left default e (e.recorded m) [] (record m e.appliedWriteIds) :=
    ⟨congrArg stored storage_recorded, nodeId_recorded, appliedWriteIds_recorded⟩
  refine .stops hplan hleft fun rest => ?_
  rw [applyLoop_of_new hval hfresh hnew, applyRemoteMutation, hid]

/-- Any other new mutation is delivered, unless storage fails. -/
lemma turn_of_new (happ : m.Applicable)
    (hnew : ¬ (m.writeId ≠ "" ∧ m.writeId ∈ e.appliedWriteIds))
    (hseen : ∀ w ∈ seen, w ∈ e.appliedWriteIds) : Turn default e seen applied drift m := by
  have hfresh : ¬ (m.writeId ≠ "" ∧ m.writeId ∈ seen) := fun h => hnew ⟨h.1, hseen _ h.2⟩
  have hloop : ∀ rest, applyLoop default e seen applied drift (m :: rest) = _ :=
    applyLoop_of_new happ.1 hfresh hnew
  obtain ⟨b, htarget⟩ := Option.isSome_iff_exists.mp happ.2
  have hid : (mutationDocument (e.recorded m).nodeId m).get "_id" = some b := by
    rw [get_mutationDocument, htarget]
  obtain ⟨hrest, hdocs⟩ :=
    applyRemoteMutation_stored (e.recorded m) (mutationCollection default m) hid
  rcases happly : (e.recorded m).applyRemoteMutation (mutationCollection default m)
    (mutationDocument (e.recorded m).nodeId m) with ⟨r, e'⟩
  rw [happly] at hrest hdocs
  simp only [happly] at hloop
  have hnode : e'.nodeId = e.nodeId :=
    (congrArg RangoEngine.nodeId hrest).trans nodeId_recorded
  have hids : e'.appliedWriteIds = record m e.appliedWriteIds :=
    (congrArg RangoEngine.appliedWriteIds hrest).trans appliedWriteIds_recorded
  cases r with
  | error err =>
    have hkept : stored e'.storage = stored e.storage :=
      hdocs.trans (congrArg stored storage_recorded)
    exact .fails happ hnew ⟨hkept, hnode, hids⟩ (congrArg Prod.fst happly) hloop
  | ok _ =>
    have hdeliver : stored e'.storage = deliver default e.nodeId (stored e.storage) m := by
      refine (show stored e'.storage = _ from hdocs).trans ?_
      rw [storage_recorded, nodeId_recorded]
      simp [deliver, Mutation.targetKey, htarget, settle]
    have hseen' : ∀ w ∈ (if m.writeId ≠ "" then m.writeId :: seen else seen),
        w ∈ e'.appliedWriteIds := hids ▸ seen_recorded hseen
    exact .applies happ hnew ⟨hdeliver, hnode, hids⟩ hseen' hloop

end Turns

/-- The loop takes turns, as long as every write id seen in this batch is recorded. -/
theorem applyLoop_turn (default : CollectionName) {e : RangoEngine σ ω} {seen : List String}
    (applied : ℕ) (drift : Bool) (m : Mutation) (hseen : ∀ w ∈ seen, w ∈ e.appliedWriteIds) :
    Turn default e seen applied drift m := by
  cases hval : m.validateMetadata with
  | error err =>
    have hplan : ∀ rest, plan e.appliedWriteIds (m :: rest) =
        ⟨[], some (.sync ("invalid mutation metadata: " ++ err)), e.appliedWriteIds⟩ := by
      intro rest
      rw [plan_cons, hval]
    exact .stops hplan ⟨rfl, rfl, rfl⟩ (applyLoop_of_invalid hval)
  | ok _ =>
    by_cases hdup : m.writeId ≠ "" ∧ m.writeId ∈ e.appliedWriteIds
    · exact turn_of_recorded hval hdup hseen
    · cases htarget : m.target with
      | none => exact turn_of_no_target hval hdup hseen htarget
      | some b => exact turn_of_new ⟨hval, by rw [htarget]; rfl⟩ hdup hseen

/-! ## The batch loop -/

/-- Storage failed at `m`, after a pass over `pre`: `m` is recorded and not applied. -/
structure Interrupted (default : CollectionName) (e e' : RangoEngine σ ω) (pre : List Mutation)
    (m : Mutation) : Prop where
  passed : (plan e.appliedWriteIds pre).stopped = none
  applicable : m.Applicable
  new : ¬ (m.writeId ≠ "" ∧ m.writeId ∈ (plan e.appliedWriteIds pre).ids)
  left : Left default e e' (plan e.appliedWriteIds pre).kept
    (record m (plan e.appliedWriteIds pre).ids)

/-- A pass over a batch ends as `plan` says, or storage fails it at some mutation. -/
theorem applyLoop_cases (default : CollectionName) (ms : List Mutation) (e : RangoEngine σ ω)
    (seen : List String) (applied : ℕ) (drift : Bool)
    (hseen : ∀ w ∈ seen, w ∈ e.appliedWriteIds) :
    ((applyLoop default e seen applied drift ms).1.map Prod.fst
          = (plan e.appliedWriteIds ms).outcome applied ∧
        Left default e (applyLoop default e seen applied drift ms).2
          (plan e.appliedWriteIds ms).kept (plan e.appliedWriteIds ms).ids) ∨
      ∃ err pre m post, ms = pre ++ m :: post ∧
        (applyLoop default e seen applied drift ms).1 = .error err ∧
        Interrupted default e (applyLoop default e seen applied drift ms).2 pre m ∧
        ∃ e₁ : RangoEngine σ ω, (e₁.applyRemoteMutation (mutationCollection default m)
          (mutationDocument e₁.nodeId m)).1 = .error err := by
  induction ms generalizing e seen applied drift with
  | nil => exact Or.inl ⟨rfl, rfl, rfl, rfl⟩
  | cons m rest ih =>
    cases applyLoop_turn default applied drift m hseen with
    | stops hplan hleft hloop =>
      rw [hplan, hloop]
      exact Or.inl ⟨rfl, hleft⟩
    | @skips seen' hval hdup hseen' hloop =>
      have hskip : ∀ ms, plan e.appliedWriteIds (m :: ms) = plan e.appliedWriteIds ms :=
        plan_cons_skip hval hdup
      rw [hloop, hskip]
      rcases ih e seen' applied true hseen' with hends | ⟨err, pre, x, post, hms, herr, hint, hfail⟩
      · exact Or.inl hends
      · refine Or.inr ⟨err, m :: pre, x, post, by rw [hms]; rfl, herr, ?_, hfail⟩
        obtain ⟨hpassed, happ, hnew, hleft⟩ := hint
        exact ⟨by rwa [hskip], happ, by rwa [hskip], by rwa [hskip]⟩
    | @applies seen' e₁ happ hnew hleft hseen' hloop =>
      have hkeep : ∀ ms, plan e.appliedWriteIds (m :: ms) = _ := plan_cons_keep happ hnew
      rw [hloop, hkeep]
      rcases ih e₁ seen' (applied + 1) drift hseen' with
        ⟨hout, hends⟩ | ⟨err, pre, x, post, hms, herr, hint, hfail⟩
      · rw [hleft.ids] at hout hends
        refine Or.inl ⟨hout.trans ?_, hleft.trans hends⟩
        simp only [Plan.outcome, List.length_cons]
        split
        · rw [Nat.add_right_comm, Nat.add_assoc]
        · rfl
      · obtain ⟨hpassed, happ', hnew', hleft'⟩ := hint
        rw [hleft.ids] at hpassed hnew' hleft'
        refine Or.inr ⟨err, m :: pre, x, post, by rw [hms]; rfl, herr, ?_, hfail⟩
        refine ⟨by rwa [hkeep], happ', by rwa [hkeep], ?_⟩
        rw [hkeep]
        exact hleft.trans hleft'
    | @fails err e₁ e' happ hnew hleft hfail hloop =>
      rw [hloop]
      exact Or.inr ⟨err, [], m, rest, rfl, rfl, ⟨rfl, happ, hnew, hleft⟩, e₁, hfail⟩

/-- The batch operation ends as `plan` says of the sorted batch, or storage fails it. -/
theorem applyMutationsDeterministic_cases (e : RangoEngine σ ω) (default : CollectionName)
    (ms : List Mutation) :
    ((e.applyMutationsDeterministic default ms).1
          = (plan e.appliedWriteIds (ms.insertionSort CanonicalLe)).outcome 0 ∧
        Left default e (e.applyMutationsDeterministic default ms).2
          (plan e.appliedWriteIds (ms.insertionSort CanonicalLe)).kept
          (plan e.appliedWriteIds (ms.insertionSort CanonicalLe)).ids) ∨
      ∃ err pre m post, ms.insertionSort CanonicalLe = pre ++ m :: post ∧
        (e.applyMutationsDeterministic default ms).1 = .error err ∧
        Interrupted default e (e.applyMutationsDeterministic default ms).2 pre m ∧
        ∃ e₁ : RangoEngine σ ω, (e₁.applyRemoteMutation (mutationCollection default m)
          (mutationDocument e₁.nodeId m)).1 = .error err := by
  have hcases := applyLoop_cases default (ms.insertionSort CanonicalLe) e [] 0
    (receivedOutOfOrder ms) (by simp)
  unfold applyMutationsDeterministic
  rcases hloop : applyLoop default e [] 0 (receivedOutOfOrder ms)
    (ms.insertionSort CanonicalLe) with ⟨r, e'⟩
  rw [hloop] at hcases
  cases r with
  | error err =>
    rcases hcases with hends | ⟨err', pre, m, post, hms, herr, hrest⟩
    · exact Or.inl hends
    · obtain rfl : err = err' := Except.error.inj herr
      exact Or.inr ⟨err, pre, m, post, hms, rfl, hrest⟩
  | ok p =>
    rcases hcases with ⟨hout, hleft⟩ | ⟨err, pre, m, post, -, herr, -⟩
    · refine Or.inl ⟨hout, ?_⟩
      -- the drift counter is none of the three things that are said
      dsimp only
      split
      · exact ⟨hleft.docs, hleft.nodeId, hleft.ids⟩
      · exact hleft
    · cases herr

end Spec

section Maps
variable {σ ω : Type} [Formatting] [MapStorage σ]

/-! ## The storage calls on a map -/

lemma storageGet_eq (e : RangoEngine σ ω) (c : CollectionName) (id : DocumentId) :
    e.storageGet c id = (.ok (docMap e.storage c id.toString), e) := by
  unfold storageGet
  rw [storage_get_eq]

/-- An engine whose storage alone has changed, to one that denotes `D`. -/
structure StoresInstead (e e' : RangoEngine σ ω) (D : DocMap) : Prop where
  docs : docMap e'.storage = D
  rest : e' = { e with storage := e'.storage }

namespace StoresInstead
variable {e e' : RangoEngine σ ω} {D : DocMap}

lemma refl (e : RangoEngine σ ω) : StoresInstead e e (docMap e.storage) := ⟨rfl, rfl⟩

lemma nodeId (h : StoresInstead e e' D) : e'.nodeId = e.nodeId := by rw [h.rest]

lemma appliedWriteIds (h : StoresInstead e e' D) : e'.appliedWriteIds = e.appliedWriteIds := by
  rw [h.rest]

lemma trans {e'' : RangoEngine σ ω} {D' : DocMap} (h : StoresInstead e e' D)
    (h' : StoresInstead e' e'' D') : StoresInstead e e'' D' :=
  ⟨h'.docs, by rw [h'.rest, h.rest]⟩

end StoresInstead

lemma storagePut_eq (e : RangoEngine σ ω) (c : CollectionName) (id : DocumentId)
    (d : Document) : ∃ e', e.storagePut c id d = (.ok (), e') ∧
      StoresInstead e e' ((docMap e.storage).set c id.toString (some d)) := by
  obtain ⟨s, hput, hdocs⟩ := storage_put_eq c id d e.storage
  exact ⟨{ e with storage := s }, by rw [storagePut, hput], hdocs, rfl⟩

lemma storageDelete_eq (e : RangoEngine σ ω) (c : CollectionName) (id : DocumentId) :
    ∃ b e', e.storageDelete c id = (.ok b, e') ∧
      StoresInstead e e' ((docMap e.storage).set c id.toString none) := by
  obtain ⟨s, hdel, hdocs⟩ := storage_delete_eq c id e.storage
  exact ⟨_, { e with storage := s }, by rw [storageDelete, hdel], hdocs, rfl⟩

/-- On a map no call fails, and so no delivery. -/
lemma applyRemoteMutation_ok (e : RangoEngine σ ω) (c : CollectionName) {doc : Document}
    {b : Bson} (h : doc.get "_id" = some b) : (e.applyRemoteMutation c doc).1 = .ok () := by
  have hput : ∀ id d, (e.storagePut c id d).1 = .ok () := by
    intro id d
    obtain ⟨e', hput, -⟩ := storagePut_eq e c id d
    rw [hput]
  simp only [applyRemoteMutation, h, storageGet_eq]
  cases docMap e.storage c (DocumentId.fromBson b).toString with
  | none => exact hput _ _
  | some l =>
    dsimp only
    split_ifs
    · exact hput _ _
    · cases (docRevision doc).cmp (docRevision l) with
      | gt => exact hput _ _
      | lt => exact hput _ _
      | eq => rfl

/-! ## Batches on a map -/

/-- `e'` is what a pass that planned `p` and started with `e` leaves, the metrics apart. -/
structure Follows (default : CollectionName) (e e' : RangoEngine σ ω) (p : Plan) : Prop where
  docs : docMap e'.storage = p.kept.foldl (deliver default e.nodeId) (docMap e.storage)
  nodeId : e'.nodeId = e.nodeId
  ids : e'.appliedWriteIds = p.ids

/-- The batch operation does what `plan` says of the sorted batch. -/
theorem applyMutationsDeterministic_eq (e : RangoEngine σ ω) (default : CollectionName)
    (ms : List Mutation) :
    (e.applyMutationsDeterministic default ms).1
        = (plan e.appliedWriteIds (ms.insertionSort CanonicalLe)).outcome 0 ∧
      Follows default e (e.applyMutationsDeterministic default ms).2
        (plan e.appliedWriteIds (ms.insertionSort CanonicalLe)) := by
  rcases applyMutationsDeterministic_cases e default ms with
    ⟨hout, hleft⟩ | ⟨err, pre, m, post, -, -, hint, e₁, hfail⟩
  · exact ⟨hout, hleft.docs, hleft.nodeId, hleft.ids⟩
  · obtain ⟨b, hb⟩ := Option.isSome_iff_exists.mp hint.applicable.2
    have hid : (mutationDocument e₁.nodeId m).get "_id" = some b := by
      rw [get_mutationDocument, hb]
    rw [applyRemoteMutation_ok e₁ _ hid] at hfail
    cases hfail

/-- A batch is applied without an error exactly when the pass gets over each mutation of the
sorted batch. -/
theorem applyMutationsDeterministic_isOk_iff (e : RangoEngine σ ω) (default : CollectionName)
    (ms : List Mutation) :
    (e.applyMutationsDeterministic default ms).1.isOk = true ↔
      ∀ pre m post, ms.insertionSort CanonicalLe = pre ++ m :: post →
        Passes e.appliedWriteIds pre m := by
  rw [(applyMutationsDeterministic_eq e default ms).1, ← plan_stopped_iff, Plan.outcome]
  split
  · next hstop => exact iff_of_true rfl hstop
  · next err hstop => exact iff_of_false (by simp [Except.isOk, Except.toBool]) (by simp [hstop])

/-- A batch of valid mutations with write ids is applied as a whole exactly when each has an `_id`
and a write id of its own that the engine has not recorded. -/
theorem applyMutationsDeterministic_all_iff (e : RangoEngine σ ω) (default : CollectionName)
    {ms : List Mutation} (hval : ∀ m ∈ ms, m.validateMetadata = .ok ())
    (hne : ∀ m ∈ ms, m.writeId ≠ "") :
    (e.applyMutationsDeterministic default ms).1 = .ok ms.length ↔
      (∀ m ∈ ms, m.target.isSome ∧ m.writeId ∉ e.appliedWriteIds) ∧
        (ms.map Mutation.writeId).Nodup := by
  have hperm : (ms.insertionSort CanonicalLe).Perm ms := List.perm_insertionSort _ ms
  have hsame : ((∀ m ∈ ms.insertionSort CanonicalLe,
      m.target.isSome ∧ m.writeId ∉ e.appliedWriteIds) ∧
      ((ms.insertionSort CanonicalLe).map Mutation.writeId).Nodup) ↔
        (∀ m ∈ ms, m.target.isSome ∧ m.writeId ∉ e.appliedWriteIds) ∧
          (ms.map Mutation.writeId).Nodup := by
    rw [(hperm.map Mutation.writeId).nodup_iff]
    simp only [hperm.mem_iff]
  have hkept : (plan e.appliedWriteIds (ms.insertionSort CanonicalLe)).kept =
      ms.insertionSort CanonicalLe ↔ _ :=
    plan_kept_eq_iff (fun m hm => hval m (hperm.mem_iff.mp hm))
      (fun m hm => hne m (hperm.mem_iff.mp hm))
  rw [← hsame, ← hkept, (applyMutationsDeterministic_eq e default ms).1]
  constructor
  · intro hout
    unfold Plan.outcome at hout
    split at hout
    · have hlength := Except.ok.inj hout
      rw [Nat.zero_add, ← hperm.length_eq] at hlength
      exact (plan_kept_sublist _ _).eq_of_length hlength
    · cases hout
  · intro hall
    have happ : ∀ m ∈ ms.insertionSort CanonicalLe, m.Applicable := fun m hm =>
      ⟨hval m (hperm.mem_iff.mp hm), ((hkept.mp hall).1 m hm).1⟩
    rw [Plan.outcome_eq_ok (plan_stopped happ _), hall, hperm.length_eq, Nat.zero_add]

end Maps
end RangoEngine
end Rango
