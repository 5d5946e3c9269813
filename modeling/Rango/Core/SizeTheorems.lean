import Rango.Core.ConflictTheorems
import Rango.Core.FilingTheorems
import Rango.Types.BsonSize

/-!
# The size of what is stored

Inserts and updates check the document that they store. A deletion does not, and its fields come
on top of the document; nor does `apply_remote_mutation` when it puts the losing version into the
winner. `size_limit_all_along_iff` says which of these stay within the limit.
-/

namespace Rango

/-! ## The sizes of unchecked documents -/

section
variable {limit : ℕ}

/-- The fields of a tombstone, but for the two texts, take 62 bytes. -/
lemma encodedSize_tombstone (nodeId : String) (rev : Revision) (t : WriteClock) (old : Document) :
    (RangoEngine.stamp nodeId rev t (old.insert "_deleted" (.boolean true))).encodedSize +
        (old.held "_deleted" + old.held "_rev" + old.held "_updated_at" +
          old.held "_source_node") =
      old.encodedSize + 62 + utf8Size rev.text + utf8Size nodeId := by
  set d₁ := old.insert "_deleted" (.boolean true) with hd₁
  set d₂ := d₁.insert "_rev" (.string rev.text) with hd₂
  set d₃ := d₂.insert "_updated_at" (.dateTime t.docUpdatedAt) with hd₃
  set d₄ := d₃.insert "_source_node" (.string nodeId) with hd₄
  have h₁ := old.encodedSize_insert "_deleted" (.boolean true)
  have h₂ := d₁.encodedSize_insert "_rev" (.string rev.text)
  have h₃ := d₂.encodedSize_insert "_updated_at" (.dateTime t.docUpdatedAt)
  have h₄ := d₃.encodedSize_insert "_source_node" (.string nodeId)
  -- the four keys are distinct, so each field held what it held in the stored document
  have hrev : d₁.held "_rev" = old.held "_rev" := old.held_insert_of_ne _ (by decide)
  have hupdated : d₂.held "_updated_at" = old.held "_updated_at" :=
    (d₁.held_insert_of_ne _ (by decide)).trans (old.held_insert_of_ne _ (by decide))
  have hsource : d₃.held "_source_node" = old.held "_source_node" :=
    ((d₂.held_insert_of_ne _ (by decide)).trans (d₁.held_insert_of_ne _ (by decide))).trans
      (old.held_insert_of_ne _ (by decide))
  have hfields : fieldSize "_deleted" (.boolean true) = 11 ∧
      fieldSize "_rev" (.string rev.text) = 11 + utf8Size rev.text ∧
      fieldSize "_updated_at" (.dateTime t.docUpdatedAt) = 21 ∧
      fieldSize "_source_node" (.string nodeId) = 19 + utf8Size nodeId := by
    obtain ⟨hdeleted, hrev, hupdated, hsource⟩ : utf8Size "_deleted" = 8 ∧ utf8Size "_rev" = 4 ∧
      utf8Size "_updated_at" = 11 ∧ utf8Size "_source_node" = 12 := by decide
    simp only [fieldSize, Bson.encodedSize]
    omega
  show d₄.encodedSize + _ = _
  rw [← hd₁] at h₁
  rw [← hd₂, hrev] at h₂
  rw [← hd₃, hupdated] at h₃
  rw [← hd₄, hsource] at h₄
  omega

/-- The bytes of the conflicts that are kept, each with its type and its index. -/
def conflictsSize (arr : List Bson) (loser : Document) : ℕ :=
  ((Window.push 10 arr (.document loser.entries)).map fun x => x.encodedSize + 3).sum

/-- The field of conflicts takes 17 bytes and those of its elements. -/
lemma encodedSize_addConflict {winner : Document} {arr : List Bson}
    (h : conflictRecord winner = some arr) (loser : Document) :
    (addConflict loser winner).encodedSize + winner.held "_conflicts" =
      winner.encodedSize + 17 + conflictsSize arr loser := by
  have hlength : 0 + (Window.push 10 arr (.document loser.entries)).length ≤ 10 := by
    rw [Nat.zero_add, Window.push, Window.length_rtake]
    exact Nat.min_le_left _ _
  have hkey : utf8Size "_conflicts" = 10 := by decide
  have hinsert := winner.encodedSize_insert "_conflicts"
    (.array (Window.push 10 arr (.document loser.entries)))
  rw [addConflict_of_some h, hinsert, fieldSize, Bson.encodedSize, itemsSize_of_le hlength,
    ← conflictsSize, hkey]
  omega

/-- A tombstone of the document stays within the limit. -/
def TombstoneFits [Formatting] (limit : ℕ) (nodeId : String) (t : WriteClock)
    (old : Document) : Prop :=
  old.encodedSize + 62 + utf8Size (Revision.new t.revisionMs t.revisionCounter nodeId).text +
      utf8Size nodeId ≤
    limit + (old.held "_deleted" + old.held "_rev" + old.held "_updated_at" +
      old.held "_source_node")

lemma tombstoneFits_iff [Formatting] {nodeId : String} {t : WriteClock} {old : Document} :
    TombstoneFits limit nodeId t old ↔
      (RangoEngine.stamp nodeId (t.revision nodeId) t
        (old.insert "_deleted" (.boolean true))).encodedSize ≤ limit := by
  have hsize := encodedSize_tombstone nodeId (t.revision nodeId) t old
  show old.encodedSize + 62 + utf8Size (t.revision nodeId).text + utf8Size nodeId ≤ _ ↔ _
  omega

/-- The winner stays within the limit with the loser among its conflicts, if it has a record of
them. -/
def ConflictFits (limit : ℕ) (loser winner : Document) : Prop :=
  ∀ arr, conflictRecord winner = some arr →
    winner.encodedSize + 17 + conflictsSize arr loser ≤ limit + winner.held "_conflicts"

lemma conflictFits_iff {loser winner : Document} (hwinner : winner.encodedSize ≤ limit) :
    ConflictFits limit loser winner ↔ (addConflict loser winner).encodedSize ≤ limit := by
  cases hrecord : conflictRecord winner with
  | none =>
    rw [addConflict_of_none hrecord]
    exact iff_of_true (fun arr harr => nomatch hrecord.symm.trans harr) hwinner
  | some arr =>
    have hsize := encodedSize_addConflict hrecord loser
    constructor
    · intro h
      have harr := h arr hrecord
      omega
    · intro h arr' harr'
      obtain rfl : arr = arr' := Option.some.inj (hrecord.symm.trans harr')
      omega

end

section
variable [Formatting]

/-- What the merge of a document with the one at its place leaves stays within the limit. -/
def MergeFits (limit : ℕ) (old doc : Document) : Prop :=
  isDeleted old = false →
    match (docRevision doc).cmp (docRevision old) with
    | .gt => ConflictFits limit old doc
    | .lt => ConflictFits limit doc old
    | .eq => True

lemma mergeFits_iff {limit : ℕ} {old doc : Document} (hold : old.encodedSize ≤ limit)
    (hdoc : doc.encodedSize ≤ limit) :
    MergeFits limit old doc ↔ (resolve (some old) doc).encodedSize ≤ limit := by
  unfold MergeFits resolve
  dsimp only
  cases hdel : isDeleted old with
  | true => exact iff_of_true nofun hdoc
  | false =>
    rw [if_neg (by simp)]
    cases (docRevision doc).cmp (docRevision old) with
    | gt => exact (forall_prop_of_true rfl).trans (conflictFits_iff hdoc)
    | lt => exact (forall_prop_of_true rfl).trans (conflictFits_iff hold)
    | eq => exact iff_of_true (fun _ => trivial) hold

/-! ## Calls -/

/-- A call of a run, with remote documents that are within the limit themselves. -/
inductive LimitedCall (limit : ℕ) where
  | insert (c : CollectionName) (doc : Document) (t : WriteClock)
  | update (c : CollectionName) (id : DocumentId) (update : Document) (t : WriteClock)
  | delete (c : CollectionName) (id : DocumentId) (t : WriteClock)
  | applyRemote (c : CollectionName) (doc : Document) (small : doc.encodedSize ≤ limit)

def LimitedCall.toCall {limit : ℕ} : LimitedCall limit → EngineCall
  | .insert c doc t => .step (.insert c doc t)
  | .update c id u t => .step (.update c id u t)
  | .delete c id t => .step (.delete c id t)
  | .applyRemote c doc _ => .applyRemote c doc

/-- Every stored document is within the limit. -/
def DocMap.Within (limit : ℕ) (D : DocMap) : Prop := ∀ c k d, D c k = some d → d.encodedSize ≤ limit

omit [Formatting] in
lemma DocMap.Within.set_iff {limit : ℕ} {D : DocMap} (h : D.Within limit) (c : CollectionName)
    (k : String) (d : Document) : (D.set c k (some d)).Within limit ↔ d.encodedSize ≤ limit := by
  refine ⟨fun h' => h' c k d (D.set_self c k (some d)), fun hd c' k' d' hget => ?_⟩
  rcases DocMap.of_set hget with ⟨-, -, hsome⟩ | hget
  · exact Option.some.inj hsome ▸ hd
  · exact h c' k' d' hget

namespace RangoEngine
variable {σ ω : Type} [FallibleStorage σ] {limit : ℕ} {e : RangoEngine σ ω}

/-- The storage answers the look at the place, and takes the document. -/
def Takes (e : RangoEngine σ ω) (c : CollectionName) (id : DocumentId) (d : Document) : Prop :=
  (∃ found, (e.storageGet c id).1 = .ok found) ∧
    ((e.storageGet c id).2.storagePut c id d).1 = .ok ()

lemma storagePut_within_iff (h : (stored e.storage).Within limit) (c : CollectionName)
    (id : DocumentId) (d : Document) :
    (stored (e.storagePut c id d).2.storage).Within limit ↔
      ((e.storagePut c id d).1 = .ok () → d.encodedSize ≤ limit) := by
  rw [storagePut_stored]
  cases hput : (e.storagePut c id d).1 with
  | error err => exact iff_of_true h nofun
  | ok _ => exact (h.set_iff c _ d).trans ⟨fun hd _ => hd, fun hd => hd rfl⟩

/-- A remote document that is within the limit leaves all within it exactly when the merge does. -/
lemma applyRemoteMutation_within_iff (h : (stored e.storage).Within limit) (c : CollectionName)
    {doc : Document} (hdoc : doc.encodedSize ≤ limit) {b : Bson} (hid : doc.get "_id" = some b) :
    (stored (e.applyRemoteMutation c doc).2.storage).Within limit ↔
      ∀ old, stored e.storage c (DocumentId.fromBson b).toString = some old →
        e.Takes c (DocumentId.fromBson b) (resolve (some old) doc) → MergeFits limit old doc := by
  obtain ⟨hget, hfound⟩ := storageGet_stored e c (DocumentId.fromBson b)
  unfold applyRemoteMutation Takes
  rw [hid]
  dsimp only
  rcases hcall : e.storageGet c (DocumentId.fromBson b) with ⟨r, e'⟩
  rw [hcall] at hget hfound
  have h' : (stored e'.storage).Within limit := by
    rw [show stored e'.storage = stored e.storage from hget]
    exact h
  cases r with
  | error err => exact iff_of_true h' (by rintro old - ⟨⟨found, hok⟩, -⟩; cases hok)
  | ok found =>
    have hthere : found = stored e.storage c (DocumentId.fromBson b).toString := hfound found rfl
    rw [← hthere]
    cases found with
    | none =>
      exact iff_of_true ((storagePut_within_iff h' c _ doc).mpr fun _ => hdoc) nofun
    | some old =>
      have hold : old.encodedSize ≤ limit := h c _ old hthere.symm
      trans (e'.storagePut c (DocumentId.fromBson b) (resolve (some old) doc)).1 = .ok () →
        (resolve (some old) doc).encodedSize ≤ limit
      · unfold resolve
        dsimp only
        cases hdel : isDeleted old with
        | true => exact storagePut_within_iff h' c _ doc
        | false =>
          cases (docRevision doc).cmp (docRevision old) with
          | gt => exact storagePut_within_iff h' c _ (addConflict old doc)
          | lt => exact storagePut_within_iff h' c _ (addConflict doc old)
          | eq => exact iff_of_true h' fun _ => hold
      · constructor
        · rintro hsize _ ⟨⟩ ⟨-, hok⟩
          exact (mergeFits_iff hold hdoc).mpr (hsize hok)
        · intro hfits hok
          exact (mergeFits_iff hold hdoc).mp (hfits old rfl ⟨⟨_, rfl⟩, hok⟩)

variable [Oplog ω] [BsonCodec] [MutationHasher] [Arithmetic]

/-- A local write leaves all within the limit exactly when the document that it gets to put is. -/
lemma step_within_iff (h : (stored e.storage).Within limit) {s : EngineStep}
    (hs : s.clock.isSome) :
    (stored (e.step s).storage).Within limit ↔
      ∀ w ∈ e.planned s, ((e.look s).2.storagePut w.collection w.id w.doc).1 = .ok () →
        w.doc.encodedSize ≤ limit :=
  step_keeps_iff (Q := DocMap.Within limit) (P := fun _ d => d.encodedSize ≤ limit) h h.set_iff hs

omit [FallibleStorage σ] [Oplog ω] [Formatting] [MutationHasher] [Arithmetic] in
/-- A document that passes the check is within the limit. -/
lemma encodedSize_le_of_validated (hcodec : BsonCodec.Measured) {d : Document}
    (h : e.validateDocumentSize d = .ok ()) : d.encodedSize ≤ e.config.maxDocumentSizeBytes := by
  unfold validateDocumentSize at h
  cases hwrite : BsonCodec.toWriter d with
  | error err => rw [hwrite] at h; cases h
  | ok bytes =>
    rw [hwrite] at h
    dsimp only at h
    split_ifs at h with hsize
    rw [← hcodec d bytes hwrite]
    exact not_lt.mp hsize

omit [Oplog ω] in
/-- The document of a planned insert or update is within the limit. -/
lemma encodedSize_le_of_planned (hcodec : BsonCodec.Measured) {s : EngineStep}
    (hs : ∀ c id t, s ≠ .delete c id t) {w : Write} (h : e.planned s = some w) :
    w.doc.encodedSize ≤ e.config.maxDocumentSizeBytes := by
  unfold planned at h
  split at h
  · cases h
  · split at h
    · cases h
    · next hprep =>
      rcases validated_of_prepare (h ▸ hprep) with ⟨c, id, t, heq⟩ | hvalid
      · exact absurd heq (hs c id t)
      · exact encodedSize_le_of_validated hcodec hvalid

/-- The engine after one call of a run, whatever it returned. -/
def callLimited (e : RangoEngine σ ω) (x : LimitedCall limit) : RangoEngine σ ω := e.call x.toCall

/-- A deletion that gets to store its tombstone, and a remote mutation that gets to store a merge,
have room for what they add. -/
def Fits (e : RangoEngine σ ω) : LimitedCall limit → Prop
  | .delete c id t => ∀ old, stored e.storage c id.toString = some old →
      e.Takes c id (e.deleteWrite c id old t).doc → TombstoneFits limit e.nodeId t old
  | .applyRemote c doc _ => ∀ b, doc.get "_id" = some b →
      ∀ old, stored e.storage c (DocumentId.fromBson b).toString = some old →
        e.Takes c (DocumentId.fromBson b) (resolve (some old) doc) → MergeFits limit old doc
  | _ => True

/-- **What a call does to the sizes.** -/
theorem call_within_iff (hcodec : BsonCodec.Measured)
    (hlimit : e.config.maxDocumentSizeBytes = limit) (h : (stored e.storage).Within limit)
    (x : LimitedCall limit) :
    (stored (e.callLimited x).storage).Within limit ↔ e.Fits x := by
  cases x with
  | insert c doc t =>
    refine iff_of_true ((step_within_iff h rfl).mpr fun w hw _ => ?_) trivial
    exact hlimit ▸ encodedSize_le_of_planned hcodec (by simp) hw
  | update c id u t =>
    refine iff_of_true ((step_within_iff h rfl).mpr fun w hw _ => ?_) trivial
    exact hlimit ▸ encodedSize_le_of_planned hcodec (by simp) hw
  | applyRemote c doc small =>
    cases hid : doc.get "_id" with
    | none =>
      refine iff_of_true ?_ fun b hb => nomatch hid.symm.trans hb
      show (stored (e.applyRemoteMutation c doc).2.storage).Within limit
      unfold applyRemoteMutation
      rw [hid]
      exact h
    | some b =>
      refine (applyRemoteMutation_within_iff h c small hid).trans ⟨fun hfits b' hb' => ?_,
        fun hfits => hfits b hid⟩
      obtain rfl : b = b' := Option.some.inj (hid.symm.trans hb')
      exact hfits
  | delete c id t =>
    refine (step_within_iff h rfl).trans ?_
    constructor
    · rintro hsize old hold ⟨⟨found, hfound⟩, hput⟩
      have hthere : found = some old := (look_found (s := .delete c id t) rfl hfound).trans hold
      have hplan : e.planned (.delete c id t) = some (e.deleteWrite c id old t) := by
        unfold planned
        rw [show (e.look (.delete c id t)).1 = .ok found from hfound, hthere]
        rfl
      exact tombstoneFits_iff.mpr (hsize _ hplan hput)
    · intro hfits w hw hput
      obtain ⟨found, hfound, hprep⟩ := prepares_of_planned hw
      obtain ⟨⟩ | ⟨⟩ | ⟨hold⟩ := hprep
      exact tombstoneFits_iff.mp
        (hfits _ ((look_found rfl hfound).symm.trans hold) ⟨⟨found, hfound⟩, hput⟩)

/-- No call changes the limit. -/
lemma call_config (e : RangoEngine σ ω) (x : LimitedCall limit) :
    (e.callLimited x).config = e.config := by
  have hlocal : ∀ s : EngineStep, s.clock.isSome → (e.step s).config = e.config := fun s hs => by
    rw [step_rest e hs]
  cases x with
  | insert c doc t => exact hlocal (.insert c doc t) rfl
  | update c id u t => exact hlocal (.update c id u t) rfl
  | delete c id t => exact hlocal (.delete c id t) rfl
  | applyRemote c doc small =>
    show (e.applyRemoteMutation c doc).2.config = e.config
    cases hid : doc.get "_id" with
    | none =>
      unfold applyRemoteMutation
      rw [hid]
    | some b => rw [(applyRemoteMutation_stored e c hid).1]

/-! ## Runs -/

/-- **The size limit.** For every limit and every run of inserts, updates, deletions and remote
mutations on an engine that is opened on empty storage, the remote documents within the limit
themselves: in every state that the run reaches each stored document is within the limit, exactly
when every deletion has room for the fields of its tombstone, and every merge for the conflict that
it adds. -/
theorem size_limit_all_along_iff (hcodec : BsonCodec.Measured) {s : σ}
    (hempty : stored s = DocMap.empty) (o : ω) (nodeId : String)
    (calls : List (LimitedCall limit)) :
    (∀ pre, pre <+: calls → ∀ c k d,
      stored (pre.foldl callLimited (openWithConfig s o nodeId ⟨limit⟩)).storage
        c k = some d → d.encodedSize ≤ limit) ↔
    Runs.All callLimited Fits (openWithConfig s o nodeId ⟨limit⟩) calls := by
  have hnew : (stored (openWithConfig s o nodeId ⟨limit⟩).storage).Within limit := by
    show (stored s).Within limit
    rw [hempty]
    exact nofun
  have hstep : ∀ (e : RangoEngine σ ω) (x : LimitedCall limit),
      e.config.maxDocumentSizeBytes = limit ∧ (stored e.storage).Within limit →
      ((e.callLimited x).config.maxDocumentSizeBytes = limit ∧
        (stored (e.callLimited x).storage).Within limit ↔ e.Fits x) := by
    rintro e x ⟨hlimit, hwithin⟩
    rw [call_config, and_iff_right hlimit]
    exact call_within_iff hcodec hlimit hwithin x
  rw [← Runs.forall_prefix_iff_all hstep calls ⟨rfl, hnew⟩]
  have hkeeps : ∀ (e : RangoEngine σ ω) (x : LimitedCall limit),
      e.config.maxDocumentSizeBytes = limit →
      (e.callLimited x).config.maxDocumentSizeBytes = limit := fun e x he => by
    rw [call_config, he]
  have hconfig : ∀ pre : List (LimitedCall limit),
      (pre.foldl callLimited
        (openWithConfig s o nodeId ⟨limit⟩)).config.maxDocumentSizeBytes = limit := fun pre =>
    Runs.invariant hkeeps pre rfl
  exact ⟨fun h pre hpre => ⟨hconfig pre, h pre hpre⟩, fun h pre hpre => (h pre hpre).2⟩

end RangoEngine
end

/-! ## A worked example -/

section
attribute [local instance] Formatting.sample MutationHasher.sample Arithmetic.sample
  sampleWriteCodec

/-- A new engine with a small limit. -/
def sampleLimited : RangoEngine MemoryStorage MemLog :=
  .openWithConfig MemoryStorage.new MemLog.new "a" ⟨76⟩

/-- An insert of a document that is as large as allowed, and its deletion. -/
def sampleLimitedDeletion : List (LimitedCall 76) :=
  [.insert ⟨"c"⟩ sampleDoc (.sample 1 0), .delete ⟨"c"⟩ ⟨.string "d"⟩ (.sample 2 0)]

/-- Two versions of a remote document, each of 44 bytes. -/
def sampleLimitedMerge : List (LimitedCall 76) :=
  [.applyRemote ⟨"c"⟩ (sampleVersion "1-0-a" "A") (by decide),
    .applyRemote ⟨"c"⟩ (sampleVersion "2-0-a" "B") (by decide)]

/-- For the first run on a new engine. -/
theorem RangoEngine.size_limit_all_along_iff_deletion :
    (∀ pre, pre <+: sampleLimitedDeletion → ∀ c k d,
      stored (pre.foldl callLimited sampleLimited).storage c k = some d → d.encodedSize ≤ 76) ↔
    Runs.All callLimited Fits sampleLimited sampleLimitedDeletion :=
  size_limit_all_along_iff (σ := MemoryStorage) (BsonCodec.ofTable_measured _ _) rfl MemLog.new "a"
    sampleLimitedDeletion

/-- The tombstone takes 87 bytes, and the merged version 108, where 76 are allowed. -/
theorem unchecked_writes_exceed :
    (stored (sampleLimitedDeletion.foldl RangoEngine.callLimited sampleLimited).storage ⟨"c"⟩
        "\"d\"").map Document.encodedSize = some 87 ∧
      (stored (sampleLimitedMerge.foldl RangoEngine.callLimited sampleLimited).storage ⟨"c"⟩
        "\"d\"").map Document.encodedSize = some 108 := by
  constructor
  · decide +kernel
  · decide +kernel

end
end Rango
