import Rango.Lib.Runs
import Rango.Core.FailedRestoreTheorems
import Rango.Core.WriteTheorems

/-!
# Documents filed under their own id

Restores, snapshots and the garbage collection find a document by a scan and then address
it by the `_id` it carries. That is the place it is stored at as long as every write puts a
document under its own `_id`. All calls do, but for one: `update_one` stores the updated
document at the place of the old one, also when the update has changed `_id`.
`filed_all_along_iff` says that nothing else breaks the link, in any run of an engine and on
any backend.
-/

namespace Rango

/-! ## Updates, field by field -/

/-- What an operator of an update does to one field. -/
inductive FieldEdit where
  | set (v : Bson)
  | unset
  | inc (v : Bson)

/-- The edits of a field that one operator of an update makes. -/
def operatorEdits (key : String) (value : Bson) (field : String) : List FieldEdit :=
  match value.asDocument with
  | none => []
  | some operand => (operand.entries.filter fun kv => kv.1 = field).map fun kv =>
      if key = "$set" then .set kv.2 else if key = "$unset" then .unset else .inc kv.2

/-- The edits of a field that an update makes, in turn. -/
def fieldEdits (update : Document) (field : String) : List FieldEdit :=
  update.entries.flatMap fun kv => operatorEdits kv.1 kv.2 field

/-- What a loop that may fail does to `g` of its state, when each step does so. -/
lemma foldlM_hom {α β γ ε : Type} {f : α → β → Except ε α} {g : α → γ} {step : γ → β → γ}
    (h : ∀ a b a', f a b = .ok a' → g a' = step (g a) b) {l : List β} {a a' : α}
    (hrun : l.foldlM f a = .ok a') : g a' = l.foldl step (g a) := by
  induction l generalizing a with
  | nil => rw [← Except.ok.inj hrun]; rfl
  | cons b rest ih =>
    rw [List.foldlM_cons] at hrun
    cases hf : f a b with
    | error err => rw [hf] at hrun; cases hrun
    | ok a₁ =>
      rw [hf] at hrun
      rw [List.foldl_cons, ← h a b a₁ hf]
      exact ih hrun

section Update
variable [Arithmetic]

/-- The field after an edit that succeeds. An increment of another type leaves it. -/
def FieldEdit.apply (found : Option Bson) : FieldEdit → Option Bson
  | .set v => some v
  | .unset => none
  | .inc v =>
    match found, v with
    | some (.int32 i), .int32 j => some (.int32 ((i + j).bmod (2 ^ 32)))
    | some (.int64 i), .int64 j => some (.int64 ((i + j).bmod (2 ^ 64)))
    | some (.double x), .double y => some (.double (Arithmetic.f64Add x y))
    | _, _ => found

lemma addSigned_eq {width : ℕ} {i j r : ℤ} (h : addSigned width i j = .ok r) :
    r = (i + j).bmod (2 ^ width) := by
  unfold addSigned at h
  split_ifs at h with hfits
  · rw [← Except.ok.inj h, hfits]
  · rw [← Except.ok.inj h]

lemma get_applyInc {doc doc' : Document} {k : String} {v : Bson}
    (h : applyInc doc k v = .ok doc') (field : String) :
    doc'.get field =
      if k = field then FieldEdit.apply (doc.get field) (.inc v) else doc.get field := by
  -- the sum goes into the field that was incremented, and no other changes
  have hput : ∀ {x}, FieldEdit.apply (doc.get k) (.inc v) = some x →
      (doc.insert k x).get field =
        if k = field then FieldEdit.apply (doc.get field) (.inc v) else doc.get field := by
    intro x hx
    split_ifs with hk
    · subst hk
      rw [Document.get_insert_self, hx]
    · exact Document.get_insert_of_ne _ _ hk
  have hint : ∀ {width : ℕ} {i j : ℤ} {g : ℤ → Bson},
      FieldEdit.apply (doc.get k) (.inc v) = some (g ((i + j).bmod (2 ^ width))) →
      ((addSigned width i j).map fun r => doc.insert k (g r)) = .ok doc' →
      doc'.get field =
        if k = field then FieldEdit.apply (doc.get field) (.inc v) else doc.get field := by
    intro width i j g hx hr
    cases hadd : addSigned width i j with
    | error fault => rw [hadd] at hr; cases hr
    | ok r =>
      rw [hadd] at hr
      rw [← Except.ok.inj hr]
      exact hput (hx.trans (by rw [addSigned_eq hadd]))
  unfold applyInc at h
  split at h
  · next hget => exact hint (by rw [hget]; rfl) h
  · next hget => exact hint (by rw [hget]; rfl) h
  · next hget =>
    rw [← Except.ok.inj h]
    exact hput (by rw [hget]; rfl)
  · next hint32 hint64 hdouble =>
    -- the types differ: nothing is written, and the edit leaves the field as well
    rw [← Except.ok.inj h]
    split_ifs with hk
    · subst hk
      unfold FieldEdit.apply
      dsimp only
      split
      · next hget => exact absurd rfl (hint32 _ _ hget)
      · next hget => exact absurd rfl (hint64 _ _ hget)
      · next hget => exact absurd rfl (hdouble _ _ hget)
      · rfl
    · rfl

/-- An operator edits each field by itself. -/
lemma get_applyOperator {doc doc' : Document} {key : String} {value : Bson}
    (h : applyOperator doc key value = .ok doc') (field : String) :
    doc'.get field = (operatorEdits key value field).foldl FieldEdit.apply (doc.get field) := by
  unfold applyOperator at h
  unfold operatorEdits
  split_ifs at h with hset hunset hinc
  · -- `$set`
    cases hd : value.asDocument with
    | none => simp only [hd] at h ⊢; rw [Except.ok.inj h]; rfl
    | some operand =>
      simp only [hd] at h ⊢
      rw [← Except.ok.inj h, List.foldl_map, List.foldl_filter]
      refine (List.foldl_hom (fun d : Document => d.get field) fun d kv => ?_).symm
      by_cases hk : kv.1 = field
      · simp [hk, hset, FieldEdit.apply]
      · simp [hk]
  · -- `$unset`
    cases hd : value.asDocument with
    | none => simp only [hd] at h ⊢; rw [Except.ok.inj h]; rfl
    | some operand =>
      simp only [hd] at h ⊢
      rw [← Except.ok.inj h, List.foldl_map, List.foldl_filter]
      refine (List.foldl_hom (fun d : Document => d.get field) fun d kv => ?_).symm
      by_cases hk : kv.1 = field
      · simp [hk, hunset, FieldEdit.apply]
      · simp [hk]
  · -- `$inc`
    cases hd : value.asDocument with
    | none => simp only [hd] at h ⊢; rw [Except.ok.inj h]; rfl
    | some operand =>
      simp only [hd] at h ⊢
      rw [List.foldl_map, List.foldl_filter]
      refine foldlM_hom (g := fun d : Document => d.get field) (fun d kv d' hstep => ?_) h
      rw [get_applyInc hstep field]
      by_cases hk : kv.1 = field
      · simp [hk, hinc]
      · simp [hk]

/-- **Updates act field by field.** What an update that succeeds leaves in a field are its
edits of that field, made in turn on what was there. -/
theorem get_applyUpdate {doc doc' update : Document} (h : applyUpdate doc update = .ok doc')
    (field : String) :
    doc'.get field = (fieldEdits update field).foldl FieldEdit.apply (doc.get field) := by
  rw [fieldEdits, List.foldl_flatMap]
  exact foldlM_hom (g := fun d : Document => d.get field)
    (fun d kv d' hstep => get_applyOperator hstep field) h

end Update

/-! ## Calls -/

/-- One call on an engine: a local write or a batch, one remote mutation, a restore, or a
garbage collection. -/
inductive EngineCall where
  | step (s : EngineStep)
  | applyRemote (c : CollectionName) (doc : Document)
  | restore (c : CollectionName) (snapshot : SnapshotUnit) (replay : List Mutation)
  | gc (c : CollectionName)

namespace RangoEngine

/-- The engine after one call, whatever it returned. -/
def call {σ ω : Type} [Formatting] [StorageEngine σ] [Oplog ω] [BsonCodec] [MutationHasher]
    [Arithmetic] (e : RangoEngine σ ω) : EngineCall → RangoEngine σ ω
  | .step s => e.step s
  | .applyRemote c doc => (e.applyRemoteMutation c doc).2
  | .restore c snapshot replay => (e.restoreFromSnapshot c snapshot replay).2
  | .gc c => (e.gcDeleted c).2

end RangoEngine

section
variable [Formatting]

/-! ## Writes that keep documents in place -/

/-- Every stored document is stored under the id it carries. -/
def InPlace (D : DocMap) : Prop := ∀ c, Filed D c

/-- Putting a document keeps all in place exactly when it is put under its own id. -/
lemma InPlace.set_iff {D : DocMap} (h : InPlace D) (c : CollectionName) (k : String)
    (d : Document) : InPlace (D.set c k (some d)) ↔ d.printedId = some k :=
  ⟨fun h' => h' c k d (DocMap.set_self D c k (some d)), fun hd c' => (h c').set c hd⟩

lemma InPlace.set_none {D : DocMap} (h : InPlace D) (c : CollectionName) (k : String) :
    InPlace (D.set c k none) := by
  intro c' k' d hget
  rcases DocMap.of_set hget with ⟨-, -, hsome⟩ | hget
  · cases hsome
  · exact h c' k' d hget

/-- A call that fails leaves the documents in place. -/
lemma InPlace.settle {D D' : DocMap} {α : Type} (h : InPlace D) (h' : InPlace D')
    (r : Except RangoError α) : InPlace (settle r D D') := by
  cases r with
  | error err => exact h
  | ok _ => exact h'

namespace RangoEngine
variable {σ ω : Type} [FallibleStorage σ] {e : RangoEngine σ ω}

/-- A remote mutation is stored under the `_id` it carries. -/
lemma applyRemoteMutation_inPlace (h : InPlace (stored e.storage)) (c : CollectionName)
    (doc : Document) : InPlace (stored (e.applyRemoteMutation c doc).2.storage) := by
  cases hid : doc.get "_id" with
  | none =>
    unfold applyRemoteMutation
    rw [hid]
    exact h
  | some b =>
    have hdoc : doc.printedId = some (DocumentId.fromBson b).toString := by
      rw [Document.printedId, hid]
      rfl
    rw [(applyRemoteMutation_stored e c hid).2]
    refine h.settle ((h.set_iff c _ _).mpr ?_) _
    rcases get_resolve (stored e.storage c (DocumentId.fromBson b).toString) doc with
      hget | ⟨l, hl, hget⟩
    · rwa [Document.printedId, hget]
    · rw [Document.printedId, hget]
      exact h c _ l hl

/-- A batch delivers some of its mutations, each under the id it carries. -/
lemma applyMutationsDeterministic_inPlace (h : InPlace (stored e.storage))
    (default : CollectionName) (ms : List Mutation) :
    InPlace (stored (e.applyMutationsDeterministic default ms).2.storage) := by
  rcases applyMutationsDeterministic_cases e default ms with
    ⟨-, hleft⟩ | ⟨err, pre, m, post, -, -, hint, -⟩
  · rw [hleft.docs]
    exact filed_foldl_deliver h default e.nodeId _
  · rw [hint.left.docs]
    exact filed_foldl_deliver h default e.nodeId _

omit [FallibleStorage σ] in
/-- A loop over documents keeps what its calls keep, each for the id of its document. -/
lemma eachDocument_keeps {α : Type} {P : RangoEngine σ ω → Prop}
    {call : RangoEngine σ ω → DocumentId → Document → Except RangoError α × RangoEngine σ ω}
    (hcall : ∀ e id d, d.printedId = some id.toString → P e → P (call e id d).2)
    (h : P e) (docs : List Document) : P (eachDocument call e docs).2 := by
  induction docs generalizing e with
  | nil => exact h
  | cons d rest ih =>
    cases hd : d.get "_id" with
    | none =>
      -- a document without an `_id` is passed over
      rw [eachDocument_cons_none hd]
      exact ih h
    | some b =>
      have hid : d.printedId = some (DocumentId.fromBson b).toString := by
        rw [Document.printedId, hd]
        rfl
      have hone := hcall e (DocumentId.fromBson b) d hid h
      rw [eachDocument_cons_some hd]
      rcases hres : call e (DocumentId.fromBson b) d with ⟨r, e₁⟩
      rw [hres] at hone
      cases r with
      | error err => exact hone
      | ok _ => exact ih hone

lemma storageDelete_inPlace (h : InPlace (stored e.storage)) (c : CollectionName)
    (id : DocumentId) : InPlace (stored (e.storageDelete c id).2.storage) := by
  rw [(storageDelete_holds c e id).docs]
  exact h.settle (h.set_none c _) _

section
variable {P Q : RangoEngine σ ω → Prop} {c : CollectionName}
  (hscan : ∀ e, P e → P (e.storageScan c).2)
  (hdelete : ∀ e id, P e → P (e.storageDelete c id).2)
include hscan hdelete

/-- A restore wipes, refills from the snapshot by the ids in it, and replays: it keeps what these
keep. -/
lemma restoreFromSnapshot_keeps {replay : List Mutation}
    (hput : ∀ e id d, d.printedId = some id.toString → P e → P (e.storagePut c id d).2)
    (hbatch : ∀ e, P e → Q (e.applyMutationsDeterministic c replay).2) (hPQ : ∀ e, P e → Q e)
    (h : P e) (snapshot : SnapshotUnit) : Q (e.restoreFromSnapshot c snapshot replay).2 := by
  have hlisted : P (e.findAllRaw c).2 := by
    have hstate := hscan e h
    unfold findAllRaw
    rcases hres : e.storageScan c with ⟨r, e₁⟩
    rw [hres] at hstate
    cases r with
    | error err => exact hstate
    | ok _ => exact hstate
  unfold restoreFromSnapshot
  -- a call that fails on the way leaves the state it has reached
  split_ifs
  · exact hPQ e h
  · rcases hall : e.findAllRaw c with ⟨r, e₁⟩
    rw [hall] at hlisted
    cases r with
    | error err => exact hPQ _ hlisted
    | ok existing =>
      dsimp only
      have hwipe : P (wipe c e₁ existing).2 := by
        rw [wipe_eq_eachDocument]
        exact eachDocument_keeps (fun e id _ _ he => hdelete e id he) hlisted existing
      rcases hrun : wipe c e₁ existing with ⟨r, e₂⟩
      rw [hrun] at hwipe
      cases r with
      | error err => exact hPQ _ hwipe
      | ok _ =>
        dsimp only
        have hrefill : P (refill c e₂ snapshot.state).2 := by
          rw [refill_eq_eachDocument]
          exact eachDocument_keeps hput hwipe snapshot.state
        rcases hrun : refill c e₂ snapshot.state with ⟨r, e₃⟩
        rw [hrun] at hrefill
        cases r with
        | error err => exact hPQ _ hrefill
        | ok _ => exact hbatch e₃ hrefill

omit hscan in
lemma gcLoop_keeps (h : P e) (removed : ℕ)
    (results : List (Except RangoError Document)) : P (gcLoop c e removed results).2 := by
  induction results generalizing e removed with
  | nil => exact h
  | cons result rest ih =>
    cases result with
    | error err => exact h
    | ok doc =>
      unfold gcLoop
      split_ifs
      · cases doc.get "_id" with
        | none => exact ih h removed
        | some b =>
          -- a tombstone with an `_id` is deleted, and the loop ends where a deletion fails
          dsimp only
          have hdel := hdelete e (DocumentId.fromBson b) h
          rcases hres : e.storageDelete c (DocumentId.fromBson b) with ⟨r, e₁⟩
          rw [hres] at hdel
          cases r with
          | error err => exact hdel
          | ok _ => exact ih hdel (removed + 1)
      · exact ih h removed

/-- So does the garbage collection, which scans and deletes. -/
lemma gcDeleted_keeps (h : P e) : P (e.gcDeleted c).2 := by
  have hstate := hscan e h
  unfold gcDeleted
  rcases hres : e.storageScan c with ⟨r, e₁⟩
  rw [hres] at hstate
  cases r with
  | error err => exact hstate
  | ok results => exact gcLoop_keeps hdelete hstate 0 results

end

lemma storageScan_inPlace (h : InPlace (stored e.storage)) (c : CollectionName) :
    InPlace (stored (e.storageScan c).2.storage) := by
  rw [show stored (e.storageScan c).2.storage = stored e.storage from
    (FallibleStorage.scan_spec c e.storage).1]
  exact h

/-- Deletions leave the other places alone, and the snapshot may hold any documents: each goes
where its own `_id` says. -/
lemma restoreFromSnapshot_inPlace (h : InPlace (stored e.storage)) (c : CollectionName)
    (snapshot : SnapshotUnit) (replay : List Mutation) :
    InPlace (stored (e.restoreFromSnapshot c snapshot replay).2.storage) := by
  refine restoreFromSnapshot_keeps (P := fun e => InPlace (stored e.storage))
    (fun e he => storageScan_inPlace he c) (fun e id he => storageDelete_inPlace he c id)
    (fun e id d hd he => ?_) (fun _ he => applyMutationsDeterministic_inPlace he c replay)
    (fun _ => id) h snapshot
  rw [storagePut_stored]
  exact he.settle ((he.set_iff c _ d).mpr hd) _

lemma gcDeleted_inPlace (h : InPlace (stored e.storage)) (c : CollectionName) :
    InPlace (stored (e.gcDeleted c).2.storage) :=
  gcDeleted_keeps (P := fun e => InPlace (stored e.storage))
    (fun _ he => storageScan_inPlace he c) (fun _ id he => storageDelete_inPlace he c id) h

/-! ## Local writes -/

/-- The document that a look finds is the stored one. -/
lemma look_found {s : EngineStep} {found : Option Document} {c : CollectionName}
    {id : DocumentId} (hs : e.look s = e.storageGet c id) (h : (e.look s).1 = .ok found) :
    found = stored e.storage c id.toString :=
  (storageGet_stored e c id).2 found (hs ▸ h)

variable [Oplog ω] [BsonCodec] [MutationHasher] [Arithmetic]

/-- The edits that the update makes to the document's `_id` leave it printed as before. -/
def KeepsPrintedId (update doc : Document) : Prop :=
  ((fieldEdits update "_id").foldl FieldEdit.apply (doc.get "_id")).map
    (fun b => (DocumentId.fromBson b).toString) = doc.printedId

/-- An update that gets to store a document keeps the printed `_id`. -/
def KeepsId (e : RangoEngine σ ω) : EngineCall → Prop
  | .step (.update c id update t) =>
    ∀ w ∈ e.planned (.update c id update t),
      ((e.look (.update c id update t)).2.storagePut w.collection w.id w.doc).1 = .ok () →
        ∀ doc ∈ stored e.storage c id.toString, KeepsPrintedId update doc
  | _ => True

omit [FallibleStorage σ] [Oplog ω] [BsonCodec] [MutationHasher] in
lemma keepsPrintedId_iff {old new update : Document} (h : applyUpdate old update = .ok new) :
    KeepsPrintedId update old ↔ new.printedId = old.printedId := by
  rw [KeepsPrintedId, ← get_applyUpdate h]
  rfl

/-- A local write keeps a property `Q` of what is stored exactly when the document it gets to put
has the property `P` that `Q` asks of a document. -/
lemma step_keeps_iff {Q : DocMap → Prop} {P : String → Document → Prop} (h : Q (stored e.storage))
    (hset : ∀ c k d, Q ((stored e.storage).set c k (some d)) ↔ P k d) {s : EngineStep}
    (hs : s.clock.isSome) :
    Q (stored (e.step s).storage) ↔
      ∀ w ∈ e.planned s, ((e.look s).2.storagePut w.collection w.id w.doc).1 = .ok () →
        P w.id.toString w.doc := by
  rw [step_stored e hs]
  cases hplan : e.planned s with
  | none => exact iff_of_true h (by simp)
  | some w =>
    dsimp only
    cases hput : ((e.look s).2.storagePut w.collection w.id w.doc).1 with
    | error err => exact iff_of_true h (by rintro _ ⟨⟩ hok; rw [hput] at hok; cases hok)
    | ok _ =>
      refine (hset w.collection w.id.toString w.doc).trans ⟨?_, fun hw => hw w rfl hput⟩
      rintro hw _ ⟨⟩ -
      exact hw

/-- The documents stay in place exactly when the one that is put is put under its own id. -/
lemma step_inPlace_iff (h : InPlace (stored e.storage)) {s : EngineStep} (hs : s.clock.isSome) :
    InPlace (stored (e.step s).storage) ↔
      ∀ w ∈ e.planned s, ((e.look s).2.storagePut w.collection w.id w.doc).1 = .ok () →
        w.doc.printedId = some w.id.toString :=
  step_keeps_iff (P := fun k d => d.printedId = some k) h h.set_iff hs

/-- **What a call does to the places.** Every call keeps the documents in place, but for an
update that changes the `_id` it prints. -/
theorem call_inPlace_iff (h : InPlace (stored e.storage)) (x : EngineCall) :
    InPlace (stored (e.call x).storage) ↔ e.KeepsId x := by
  cases x with
  | applyRemote c doc => exact iff_of_true (applyRemoteMutation_inPlace h c doc) trivial
  | restore c snapshot replay =>
    exact iff_of_true (restoreFromSnapshot_inPlace h c snapshot replay) trivial
  | gc c => exact iff_of_true (gcDeleted_inPlace h c) trivial
  | step s =>
    cases s with
    | applyBatch default ms =>
      exact iff_of_true (applyMutationsDeterministic_inPlace h default ms) trivial
    | insert c doc t =>
      refine iff_of_true ((step_inPlace_iff h rfl).mpr fun w hw _ => ?_) trivial
      obtain ⟨found, -, hprep⟩ := prepares_of_planned hw
      cases hprep
      -- the id is written into the document before it is put
      simp only [insertWrite, Document.printedId]
      rw [Document.get_remove_of_ne _ (by decide), get_stamp, Document.get_insert_self]
      rfl
    | delete c id t =>
      refine iff_of_true ((step_inPlace_iff h rfl).mpr fun w hw _ => ?_) trivial
      obtain ⟨found, hfound, hprep⟩ := prepares_of_planned hw
      obtain ⟨⟩ | ⟨⟩ | ⟨hold⟩ := hprep
      -- the tombstone keeps the `_id` of the document it replaces
      simp only [deleteWrite, Document.printedId]
      rw [get_stamp, Document.get_insert_of_ne _ _ (by decide)]
      exact h c _ _ ((look_found rfl hfound).symm.trans hold)
    | update c id update t =>
      refine (step_inPlace_iff h rfl).trans (forall₂_congr fun w hw => imp_congr_right fun _ => ?_)
      obtain ⟨found, hfound, hprep⟩ := prepares_of_planned hw
      obtain ⟨⟩ | ⟨hold, hnew⟩ | ⟨⟩ := hprep
      -- the new document goes to the place of the old one, whatever `_id` it has now
      have hthere := (look_found rfl hfound).symm.trans hold
      rw [hthere]
      simp only [updateWrite, Document.printedId, get_stamp]
      rw [← Document.printedId, ← h c _ _ hthere, ← keepsPrintedId_iff hnew]
      simp

/-! ## Runs -/

/-- **Every document is filed under its own id.** For every run of calls on an engine that is
opened on empty storage, whatever fails on the way: in every state that the run reaches each
stored document has an `_id` and is stored under the key it prints as, exactly when every
update of the run that gets to store a document leaves the `_id` of that document printed as
before. -/
theorem filed_all_along_iff {s : σ} (hempty : stored s = DocMap.empty) (o : ω) (nodeId : String)
    (config : RangoConfig) (calls : List EngineCall) :
    (∀ pre, pre <+: calls → ∀ c k d,
      stored (pre.foldl call (openWithConfig s o nodeId config)).storage c k = some d →
        d.printedId = some k) ↔
    Runs.All call KeepsId (openWithConfig s o nodeId config) calls := by
  have hnew : InPlace (stored (openWithConfig s o nodeId config).storage) := by
    show InPlace (stored s)
    rw [hempty]
    exact filed_empty
  exact Runs.forall_prefix_iff_all
    (fun (e : RangoEngine σ ω) x (he : InPlace (stored e.storage)) => call_inPlace_iff he x) calls
    hnew

end RangoEngine
end

/-! ## A worked example -/

section
attribute [local instance] Formatting.sample MutationHasher.sample Arithmetic.sample

/-- A document beside the first. -/
def sampleOther : Document := ⟨[("_id", .string "e")]⟩

/-- An update that gives a document the `_id` of the other. -/
def sampleMove : Document := ⟨[("$set", .document sampleOther.entries)]⟩

/-- The first document as that update stores it. -/
def sampleMoved : Document :=
  (sampleWriter.updateWrite ⟨"c"⟩ ⟨.string "d"⟩ (sampleStored.insert "_id" (.string "e"))
    (.sample 3 0)).doc

/-- A codec that knows the documents of the run. -/
@[reducible] def sampleFilingCodec : BsonCodec :=
  .ofTable [] [sampleDoc, sampleStored, sampleOther,
    (sampleWriter.insertWrite ⟨"c"⟩ sampleOther (.sample 2 0)).doc, sampleMoved]

attribute [local instance] sampleFilingCodec

/-- Two inserts, and the update of the first document. -/
def sampleFilingCalls : List EngineCall :=
  [.step (.insert ⟨"c"⟩ sampleDoc (.sample 1 0)), .step (.insert ⟨"c"⟩ sampleOther (.sample 2 0)),
    .step (.update ⟨"c"⟩ ⟨.string "d"⟩ sampleMove (.sample 3 0))]

/-- For that run on a new engine. -/
theorem RangoEngine.filed_all_along_iff_move :
    (∀ pre, pre <+: sampleFilingCalls → ∀ c k d,
      stored (pre.foldl call (.openWithConfig MemoryStorage.new MemLog.new "a" .default)).storage
        c k = some d → d.printedId = some k) ↔
    Runs.All call KeepsId (.openWithConfig MemoryStorage.new MemLog.new "a" .default)
      sampleFilingCalls :=
  filed_all_along_iff (σ := MemoryStorage) rfl MemLog.new "a" .default sampleFilingCalls

/-- The same calls, then a deletion of the first document and a garbage collection. -/
def sampleCleanup : List EngineCall :=
  sampleFilingCalls ++ [.step (.delete ⟨"c"⟩ ⟨.string "d"⟩ (.sample 4 0)), .gc ⟨"c"⟩]

/-- The update leaves at the place of the first document one that carries the `_id` of the
other. Deleting it and clearing the tombstones then removes the other, which is live, and
keeps the tombstone. -/
theorem update_moves_document :
    stored (sampleFilingCalls.foldl RangoEngine.call sampleWriter).storage ⟨"c"⟩ "\"d\"" =
        some sampleMoved ∧
      sampleMoved.printedId = some "\"e\"" ∧
      (stored (sampleFilingCalls.foldl RangoEngine.call sampleWriter).storage ⟨"c"⟩
        "\"e\"").map isDeleted = some false ∧
      stored (sampleCleanup.foldl RangoEngine.call sampleWriter).storage ⟨"c"⟩ "\"e\"" = none ∧
      (stored (sampleCleanup.foldl RangoEngine.call sampleWriter).storage ⟨"c"⟩
        "\"d\"").map isDeleted = some true := by
  refine ⟨?_, ?_, ?_, ?_, ?_⟩
  · decide +kernel
  · decide +kernel
  · decide +kernel
  · decide +kernel
  · decide +kernel

end
end Rango
