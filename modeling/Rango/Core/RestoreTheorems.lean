import Rango.Core.ConvergenceTheorems

/-!
# Restoring a collection

A restore deletes what it finds in the collection, each document under the id the document
carries, puts back the snapshot and replays a list of mutations. Two things of the engine's
history can survive it: documents that are filed under another id than their own, which the
wipe misses, and the recorded write ids, which make the replay skip.
`restore_forgets_iff` says that nothing else does.
-/

namespace Rango

section
variable [Formatting]

/-! ## Writing listed documents to the map -/

/-- The printed `_id` that a document carries. -/
def Document.printedId (d : Document) : Option String :=
  (d.get "_id").map fun b => (DocumentId.fromBson b).toString

/-- The map with `value d` at the place of each listed document `d`. -/
def placeAll (c : CollectionName) (value : Document → Option Document) (D : DocMap)
    (docs : List Document) : DocMap :=
  docs.foldl (fun D d =>
    match d.printedId with
    | none => D
    | some k => D.set c k (value d)) D

lemma placeAll_cons_some (c : CollectionName) (value : Document → Option Document) (D : DocMap)
    {d : Document} {k : String} (h : d.printedId = some k) (docs : List Document) :
    placeAll c value D (d :: docs) = placeAll c value (D.set c k (value d)) docs := by
  simp [placeAll, h]

lemma placeAll_cons_none (c : CollectionName) (value : Document → Option Document) (D : DocMap)
    {d : Document} (h : d.printedId = none) (docs : List Document) :
    placeAll c value D (d :: docs) = placeAll c value D docs := by
  simp [placeAll, h]

/-- A place that no listed document carries is untouched. -/
lemma placeAll_of_not_mem (c : CollectionName) (value : Document → Option Document) {k : String}
    {docs : List Document} (h : ∀ d ∈ docs, d.printedId ≠ some k) (D : DocMap) :
    placeAll c value D docs c k = D c k := by
  induction docs generalizing D with
  | nil => rfl
  | cons d rest ih =>
    have hrest : ∀ x ∈ rest, x.printedId ≠ some k := fun x hx => h x (List.mem_cons_of_mem _ hx)
    cases hd : d.printedId with
    | none => rw [placeAll_cons_none c value D hd, ih hrest]
    | some k' =>
      have hne : k ≠ k' := fun hk => h d List.mem_cons_self (hk ▸ hd)
      rw [placeAll_cons_some c value D hd, ih hrest, DocMap.set_of_key_ne _ _ hne]

/-- A place ends with `v` when every listed document that carries it has value `v`, and one
is listed or `v` was there before. -/
lemma placeAll_eq {c : CollectionName} {value : Document → Option Document} {k : String}
    {v : Option Document} {docs : List Document} {D : DocMap}
    (h : ∀ d ∈ docs, d.printedId = some k → value d = v)
    (hv : D c k = v ∨ ∃ d ∈ docs, d.printedId = some k) :
    placeAll c value D docs c k = v := by
  induction docs generalizing D with
  | nil => exact hv.resolve_right (by simp)
  | cons d rest ih =>
    have hrest : ∀ x ∈ rest, x.printedId = some k → value x = v :=
      fun x hx => h x (List.mem_cons_of_mem _ hx)
    cases hd : d.printedId with
    | none =>
      rw [placeAll_cons_none c value D hd]
      refine ih hrest (hv.imp_right ?_)
      rintro ⟨x, hx, hxk⟩
      exact ⟨x, (List.mem_cons.mp hx).resolve_left (by rintro rfl; simp [hd] at hxk), hxk⟩
    | some k' =>
      rw [placeAll_cons_some c value D hd]
      by_cases hk : k = k'
      · -- written now, so it holds `v` already when the rest is placed
        subst hk
        exact ih hrest (Or.inl (by rw [DocMap.set_self, h d List.mem_cons_self hd]))
      · refine ih hrest (hv.imp (fun hD => by rw [DocMap.set_of_key_ne _ _ hk, hD]) ?_)
        rintro ⟨x, hx, hxk⟩
        refine ⟨x, (List.mem_cons.mp hx).resolve_left ?_, hxk⟩
        rintro rfl
        exact hk (Option.some.inj (hxk.symm.trans hd))

/-- What is written to a collection depends on that collection alone. -/
lemma placeAll_congr {c : CollectionName} {value : Document → Option Document} {D D' : DocMap}
    (h : D c = D' c) (docs : List Document) :
    placeAll c value D docs c = placeAll c value D' docs c := by
  induction docs generalizing D D' with
  | nil => exact h
  | cons d rest ih =>
    cases hd : d.printedId with
    | none => rw [placeAll_cons_none c value D hd, placeAll_cons_none c value D' hd, ih h]
    | some k =>
      rw [placeAll_cons_some c value D hd, placeAll_cons_some c value D' hd]
      exact ih (by funext k'; simp [DocMap.set, h])

/-! ## Documents filed under their own id -/

/-- Every document of the collection is stored under the id it carries. -/
def Filed (D : DocMap) (c : CollectionName) : Prop :=
  ∀ k d, D c k = some d → d.printedId = some k

/-- Every occupied place of the collection is the id that some document of it carries. -/
def Wipeable (D : DocMap) (c : CollectionName) : Prop :=
  ∀ k d, D c k = some d → ∃ k' d', D c k' = some d' ∧ d'.printedId = some k

lemma Filed.wipeable {D : DocMap} {c : CollectionName} (h : Filed D c) : Wipeable D c :=
  fun k d hd => ⟨k, d, hd, h k d hd⟩

lemma filed_empty (c : CollectionName) : Filed DocMap.empty c := fun _ _ h => nomatch h

/-- Writing a document under its own id keeps the collection in order. -/
lemma Filed.set {D : DocMap} {c : CollectionName} (h : Filed D c) (c' : CollectionName)
    {k : String} {d : Document} (hd : d.printedId = some k) :
    Filed (D.set c' k (some d)) c := by
  intro k' d' hget
  rcases DocMap.of_set hget with ⟨-, rfl, hsome⟩ | hget
  · rw [← Option.some.inj hsome, hd]
  · exact h k' d' hget

lemma printedId_mutationDocument (nodeId : String) (m : Mutation) :
    (RangoEngine.mutationDocument nodeId m).printedId = m.targetKey := by
  rw [Document.printedId, get_mutationDocument, Mutation.targetKey]

/-- Deliveries keep every collection in order. -/
lemma Filed.deliver {D : DocMap} {c : CollectionName} (h : ∀ c, Filed D c)
    (default : CollectionName) (nodeId : String) (m : Mutation) :
    Filed (deliver default nodeId D m) c := by
  unfold Rango.deliver
  cases hk : m.targetKey with
  | none => exact h c
  | some k =>
    refine (h c).set _ ?_
    have hdoc := printedId_mutationDocument nodeId m
    rw [hk] at hdoc
    rcases get_resolve (D (RangoEngine.mutationCollection default m) k)
      (RangoEngine.mutationDocument nodeId m) with hid | ⟨l, hl, hid⟩
    · rwa [Document.printedId, hid]
    · rw [Document.printedId, hid]
      exact h _ k l hl

lemma filed_foldl_deliver {D : DocMap} (h : ∀ c, Filed D c) (default : CollectionName)
    (nodeId : String) (ms : List Mutation) (c : CollectionName) :
    Filed (ms.foldl (deliver default nodeId) D) c := by
  induction ms generalizing D with
  | nil => exact h c
  | cons m rest ih => exact ih fun c => Filed.deliver h default nodeId m

/-- What deliveries leave in a collection depends on that collection alone. -/
lemma foldl_deliver_congr {D D' : DocMap} {c : CollectionName} (h : D c = D' c)
    (default : CollectionName) (nodeId : String) (ms : List Mutation) :
    ms.foldl (deliver default nodeId) D c = ms.foldl (deliver default nodeId) D' c := by
  induction ms generalizing D D' with
  | nil => exact h
  | cons m rest ih =>
    refine ih ?_
    unfold Rango.deliver
    cases m.targetKey with
    | none => exact h
    | some k =>
      dsimp only
      funext k'
      by_cases hc : c = RangoEngine.mutationCollection default m
      · subst hc
        simp [DocMap.set, h]
      · rw [DocMap.set_of_collection_ne _ _ _ _ hc, DocMap.set_of_collection_ne _ _ _ _ hc, h]

namespace RangoEngine

variable {σ ω : Type} [MapStorage σ]

/-! ## The pieces of a restore -/

/-- `docs` lists the collection of a document map, each place once. -/
structure Lists (docs : List (String × Document)) (D : DocMap) (c : CollectionName) : Prop where
  nodup : (docs.map Prod.fst).Nodup
  mem : ∀ k d, (k, d) ∈ docs ↔ D c k = some d

lemma findAllRaw_eq (e : RangoEngine σ ω) (c : CollectionName) :
    ∃ docs, Lists docs (docMap e.storage) c ∧
      e.findAllRaw c = (.ok (docs.map Prod.snd), e) := by
  obtain ⟨docs, hscan, hnodup, hmem⟩ := storage_scan_eq c e.storage
  refine ⟨docs, ⟨hnodup, hmem⟩, ?_⟩
  simp [findAllRaw, storageScan, hscan, Except.toOption, Function.comp_def, List.filterMap_map]

lemma wipe_eq (c : CollectionName) (e : RangoEngine σ ω) (docs : List Document) :
    ∃ e', wipe c e docs = (.ok (), e') ∧
      StoresInstead e e' (placeAll c (fun _ => none) (docMap e.storage) docs) := by
  induction docs generalizing e with
  | nil => exact ⟨e, rfl, .refl e⟩
  | cons d rest ih =>
    unfold wipe
    cases hd : d.get "_id" with
    | none =>
      rw [placeAll_cons_none _ _ _ (by simp [Document.printedId, hd])]
      exact ih e
    | some b =>
      obtain ⟨r, e₁, hdel, hinst⟩ := storageDelete_eq e c (DocumentId.fromBson b)
      obtain ⟨e₂, hrest, hinst₂⟩ := ih e₁
      rw [placeAll_cons_some _ _ _ (by rw [Document.printedId, hd]; rfl), ← hinst.docs]
      exact ⟨e₂, by simp [hdel, hrest], hinst.trans hinst₂⟩

lemma refill_eq (c : CollectionName) (e : RangoEngine σ ω) (docs : List Document) :
    ∃ e', refill c e docs = (.ok (), e') ∧
      StoresInstead e e' (placeAll c some (docMap e.storage) docs) := by
  induction docs generalizing e with
  | nil => exact ⟨e, rfl, .refl e⟩
  | cons d rest ih =>
    unfold refill
    cases hd : d.get "_id" with
    | none =>
      rw [placeAll_cons_none _ _ _ (by simp [Document.printedId, hd])]
      exact ih e
    | some b =>
      obtain ⟨e₁, hput, hinst⟩ := storagePut_eq e c (DocumentId.fromBson b) d
      obtain ⟨e₂, hrest, hinst₂⟩ := ih e₁
      rw [placeAll_cons_some _ _ _ (by rw [Document.printedId, hd]; rfl), ← hinst.docs]
      exact ⟨e₂, by simp [hput, hrest], hinst.trans hinst₂⟩

/-- The map after the wipe of everything that is listed. -/
def wiped (D : DocMap) (c : CollectionName) (docs : List (String × Document)) : DocMap :=
  placeAll c (fun _ => none) D (docs.map Prod.snd)

/-- The wipe empties exactly the places that some listed document carries. -/
lemma wiped_eq_none_iff {D : DocMap} {c : CollectionName} {docs : List (String × Document)}
    (hl : Lists docs D c) : (∀ k, wiped D c docs c k = none) ↔ Wipeable D c := by
  constructor
  · intro h k d hd
    by_contra hno
    -- a place that no document carries is not wiped
    have hkept : wiped D c docs c k = D c k := by
      refine placeAll_of_not_mem c _ (fun x hx hxk => hno ?_) D
      obtain ⟨⟨k', x'⟩, hmem, rfl⟩ := List.mem_map.mp hx
      exact ⟨k', x', (hl.mem k' x').mp hmem, hxk⟩
    rw [h k, hd] at hkept
    cases hkept
  · intro h k
    refine placeAll_eq (fun _ _ _ => rfl) ?_
    cases hd : D c k with
    | none => exact Or.inl rfl
    | some d =>
      obtain ⟨k', d', hd', hk⟩ := h k d hd
      exact Or.inr ⟨d', List.mem_map_of_mem (f := Prod.snd) ((hl.mem k' d').mpr hd'), hk⟩

/-- What a restore returns and leaves. -/
theorem restoreFromSnapshot_eq (e : RangoEngine σ ω) (c : CollectionName)
    (snapshot : SnapshotUnit) (h : snapshot.nameSpace = c.name) (replay : List Mutation) :
    let p := plan e.appliedWriteIds (replay.insertionSort CanonicalLe)
    ∃ docs, Lists docs (docMap e.storage) c ∧
      (e.restoreFromSnapshot c snapshot replay).1 = p.outcome 0 ∧
      docMap (e.restoreFromSnapshot c snapshot replay).2.storage
        = p.kept.foldl (deliver c e.nodeId)
            (placeAll c some (wiped (docMap e.storage) c docs) snapshot.state) := by
  obtain ⟨docs, hl, hall⟩ := findAllRaw_eq e c
  obtain ⟨e₁, hwipe, hinst₁⟩ := wipe_eq c e (docs.map Prod.snd)
  obtain ⟨e₂, hrefill, hinst₂⟩ := refill_eq c e₁ snapshot.state
  obtain ⟨hout, hfol⟩ := applyMutationsDeterministic_eq e₂ c replay
  have hinst := hinst₁.trans hinst₂
  rw [hinst.appliedWriteIds] at hout hfol
  refine ⟨docs, hl, ?_, ?_⟩
  · simp only [restoreFromSnapshot, h, ne_eq, not_true_eq_false, if_false, hall, hwipe, hrefill]
    exact hout
  · simp only [restoreFromSnapshot, h, ne_eq, not_true_eq_false, if_false, hall, hwipe, hrefill]
    rw [hfol.docs, hinst.nodeId, hinst₂.docs, hinst₁.docs]
    rfl

/-- A restore of another collection's snapshot is refused. -/
lemma restoreFromSnapshot_ne (e : RangoEngine σ ω) {c : CollectionName}
    {snapshot : SnapshotUnit} (h : snapshot.nameSpace ≠ c.name) (replay : List Mutation) :
    e.restoreFromSnapshot c snapshot replay
      = (.error (.conflict "snapshot namespace does not match collection"), e) := by
  simp [restoreFromSnapshot, h]

/-! ## What of the history a restore forgets -/

variable {σ' ω' : Type} [MapStorage σ']

/-- A restore that returns a count leaves the collection as it would on a fresh engine, when
the wipe empties the collection and the replay carries no recorded write id. -/
theorem restore_eq_fresh {e : RangoEngine σ ω} {f : RangoEngine σ' ω'} (hf : f.Fresh)
    (hnode : f.nodeId = e.nodeId) {c : CollectionName} (hwipe : Wipeable (docMap e.storage) c)
    {snapshot : SnapshotUnit} (hns : snapshot.nameSpace = c.name) {replay : List Mutation}
    (hnew : ∀ m ∈ replay, m.writeId ≠ "" → m.writeId ∉ e.appliedWriteIds) :
    docMap (e.restoreFromSnapshot c snapshot replay).2.storage c
      = docMap (f.restoreFromSnapshot c snapshot replay).2.storage c := by
  obtain ⟨docs, hl, -, hdocs⟩ := restoreFromSnapshot_eq e c snapshot hns replay
  obtain ⟨docs', hl', -, hdocs'⟩ := restoreFromSnapshot_eq f c snapshot hns replay
  have hkept : (plan e.appliedWriteIds (replay.insertionSort CanonicalLe)).kept
      = (plan f.appliedWriteIds (replay.insertionSort CanonicalLe)).kept :=
    (plan_ids_congr fun m hm hne =>
      iff_of_false (hnew m ((List.mem_insertionSort _).mp hm) hne) (by simp [hf.ids])).1
  -- the wipe leaves the collection empty in both, so the rest starts from the same
  have hempty : wiped (docMap e.storage) c docs c = wiped (docMap f.storage) c docs' c := by
    have hf' : Wipeable (docMap f.storage) c := by rw [hf.docs]; exact (filed_empty c).wipeable
    funext k
    rw [(wiped_eq_none_iff hl).mpr hwipe k, (wiped_eq_none_iff hl').mpr hf' k]
  rw [hdocs, hdocs', hkept, hnode]
  exact foldl_deliver_congr (placeAll_congr hempty _) c e.nodeId _

/-- An empty snapshot of a collection. -/
def emptySnapshot (c : CollectionName) : SnapshotUnit where
  snapshotId := "snapshot"
  tenantId := "tenant"
  nameSpace := c.name
  baseSeq := 0
  createdAt := 0
  state := []

/-- A live document that any collection can receive under any write id. -/
def probe (c : CollectionName) (w : String) : Mutation :=
  { Mutation.sample "ns" "tenant" "d" .insert (some ⟨[("_id", .string "d")]⟩) 1 "1-0-aaaa" w with
    collection := c.name }

omit [Formatting] in
lemma probe_valid (c : CollectionName) (w : String) : (probe c w).validateMetadata = .ok () :=
  have h : (probe ⟨"c"⟩ "w").validateMetadata = .ok () := by decide
  h

omit [Formatting] in
lemma mutationCollection_probe (c : CollectionName) (w : String) :
    mutationCollection c (probe c w) = c := by
  unfold mutationCollection
  split_ifs
  · rfl
  · rfl

/-- Which restores do not depend on the engine's history: for an engine, a collection and a
set of write ids, every restore from a replay with these write ids that returns a count
leaves the collection as a fresh engine would, exactly when every occupied place of the
collection is the id that some document of it carries, and no write id of the set is
recorded. -/
theorem restore_forgets_iff {e : RangoEngine σ ω} {f : RangoEngine σ' ω'} (hf : f.Fresh)
    (hnode : f.nodeId = e.nodeId) (c : CollectionName) (W : Set String) :
    (∀ snapshot replay n, (∀ m ∈ replay, m.writeId ∈ W) →
      (e.restoreFromSnapshot c snapshot replay).1 = .ok n →
        ∀ k, docMap (e.restoreFromSnapshot c snapshot replay).2.storage c k
          = docMap (f.restoreFromSnapshot c snapshot replay).2.storage c k) ↔
    Wipeable (docMap e.storage) c ∧ ∀ w ∈ W, w ≠ "" → w ∉ e.appliedWriteIds := by
  constructor
  · intro h
    have hwipe : Wipeable (docMap e.storage) c := by
      -- restore from the empty snapshot, with nothing to replay
      obtain ⟨docs, hl, hout, hdocs⟩ := restoreFromSnapshot_eq e c
        (emptySnapshot c) rfl []
      obtain ⟨docs', hl', -, hdocs'⟩ := restoreFromSnapshot_eq f c
        (emptySnapshot c) rfl []
      have hf' : Wipeable (docMap f.storage) c := by
        rw [hf.docs]; exact (filed_empty c).wipeable
      refine (wiped_eq_none_iff hl).mp fun k => ?_
      have hsame := h (emptySnapshot c) [] 0 (by simp) hout k
      rw [hdocs, hdocs'] at hsame
      exact hsame.trans ((wiped_eq_none_iff hl').mpr hf' k)
    refine ⟨hwipe, fun w hw hne hin => ?_⟩
    -- replay one insert with the recorded write id
    obtain ⟨docs, hl, hout, hdocs⟩ := restoreFromSnapshot_eq e c (emptySnapshot c)
      rfl [probe c w]
    obtain ⟨docs', hl', -, hdocs'⟩ := restoreFromSnapshot_eq f c (emptySnapshot c)
      rfl [probe c w]
    have hskip : plan e.appliedWriteIds [probe c w] = ⟨[], none, e.appliedWriteIds⟩ := by
      have hdup : (probe c w).writeId ≠ "" ∧ (probe c w).writeId ∈ e.appliedWriteIds := ⟨hne, hin⟩
      simp [plan, probe_valid, hdup]
    have htarget : (probe c w).target = some (.string "d") := rfl
    have hkeep : (plan f.appliedWriteIds [probe c w]).kept = [probe c w] := by
      simp [plan, probe_valid, hf.ids, htarget]
    have hsort : [probe c w].insertionSort CanonicalLe = [probe c w] := rfl
    rw [hsort] at hout hdocs hdocs'
    rw [hskip] at hout hdocs
    rw [hkeep] at hdocs'
    have hsame := h (emptySnapshot c) [probe c w] 0
      (fun m hm => by rwa [List.mem_singleton.mp hm]) hout
      (DocumentId.toString ⟨.string "d"⟩)
    rw [hdocs, hdocs'] at hsame
    have hgone : wiped (docMap e.storage) c docs c (DocumentId.toString ⟨.string "d"⟩) = none :=
      (wiped_eq_none_iff hl).mpr hwipe _
    have hkey : (probe c w).targetKey = some (DocumentId.toString ⟨.string "d"⟩) := rfl
    simp [emptySnapshot, placeAll, hgone, deliver, hkey, mutationCollection_probe] at hsame
  · rintro ⟨hwipe, hnew⟩ snapshot replay n hW hok k
    have hns : snapshot.nameSpace = c.name := by
      by_contra hne
      rw [restoreFromSnapshot_ne e hne] at hok
      cases hok
    rw [restore_eq_fresh hf hnode hwipe hns fun m hm hne => hnew _ (hW m hm) hne]

/-! ## Snapshot and tail against full replay -/

/-- Refilling an empty collection from the listing of another gives the other, when its
documents are filed under their own ids. -/
lemma placeAll_lists {D D' : DocMap} {c : CollectionName} (hfiled : Filed D c)
    {docs : List (String × Document)} (hl : Lists docs D c) (hempty : ∀ k, D' c k = none) :
    placeAll c some D' (docs.map Prod.snd) c = D c := by
  funext k
  refine placeAll_eq ?_ ?_
  · intro d hd hk
    obtain ⟨⟨k', d'⟩, hmem, rfl⟩ := List.mem_map.mp hd
    have hget := (hl.mem k' d').mp hmem
    obtain rfl : k' = k := Option.some.inj ((hfiled k' d' hget).symm.trans hk)
    exact hget.symm
  · cases hd : D c k with
    | none => exact Or.inl (hempty k)
    | some d =>
      exact Or.inr ⟨d, List.mem_map_of_mem (f := Prod.snd) ((hl.mem k d).mpr hd), hfiled k d hd⟩

variable {σ₁ ω₁ σ₂ ω₂ σ₃ ω₃ : Type} [MapStorage σ₁] [MapStorage σ₂] [MapStorage σ₃]

/-- **A restore undoes everything since the snapshot.** Whatever has become of the storage, the
snapshot of a collection restored without a replay returns and leaves the collection as it was when
the snapshot was taken, when the documents are filed under their own ids before and after. -/
theorem restore_undoes {e₁ : RangoEngine σ₁ ω₁} {e₂ : RangoEngine σ₂ ω₂} {c : CollectionName}
    (h₁ : Filed (docMap e₁.storage) c) (h₂ : Filed (docMap e₂.storage) c)
    (tenantId snapshotId : String) (baseSeq : ℕ) (now : DateTime) :
    ∃ snapshot, (e₁.createSnapshot c tenantId snapshotId baseSeq now).1 = .ok snapshot ∧
      (e₂.restoreFromSnapshot c snapshot []).1 = .ok 0 ∧
      docMap (e₂.restoreFromSnapshot c snapshot []).2.storage c = docMap e₁.storage c := by
  obtain ⟨docs, hl, hall⟩ := findAllRaw_eq e₁ c
  obtain ⟨docs', hl', hout, hdocs⟩ := restoreFromSnapshot_eq e₂ c
    ⟨snapshotId, tenantId, c.name, baseSeq, now, docs.map Prod.snd⟩ rfl []
  refine ⟨⟨snapshotId, tenantId, c.name, baseSeq, now, docs.map Prod.snd⟩,
    by rw [createSnapshot, hall], hout, ?_⟩
  rw [hdocs]
  -- the wipe leaves nothing of the second state, and the refill puts each document where it was
  exact placeAll_lists h₁ hl ((wiped_eq_none_iff hl').mpr h₂.wipeable)

/-- A snapshot taken after `P`, restored on another new engine with `S` to replay, leaves the
collection as applying `P` and `S` in one batch does, when `P` stands before `S` in the
canonical order and `S` carries no write id of `P`. Every call returns a value. -/
theorem snapshot_tail_eq_replay {e₁ : RangoEngine σ₁ ω₁} {e₂ : RangoEngine σ₂ ω₂}
    {e₃ : RangoEngine σ₃ ω₃} (h₁ : e₁.Fresh) (h₂ : e₂.Fresh) (hnode : e₂.nodeId = e₁.nodeId)
    (hnode' : e₃.nodeId = e₁.nodeId) (hids : e₃.appliedWriteIds = []) {c : CollectionName}
    (hfiled : Filed (docMap e₃.storage) c) {P S : List Mutation}
    (hP : ∀ m ∈ P, m.Applicable) (hS : ∀ m ∈ S, m.Applicable)
    (hcut : ∀ p ∈ P, ∀ s ∈ S, CanonicalLt p s)
    (hnew : ∀ s ∈ S, ∀ p ∈ P, s.writeId ≠ "" → p.writeId ≠ s.writeId)
    (tenantId snapshotId : String) (baseSeq : ℕ) (now : DateTime) :
    ∃ snapshot n n' n'',
      (e₁.applyMutationsDeterministic c (P ++ S)).1 = .ok n ∧
      (e₂.applyMutationsDeterministic c P).1 = .ok n' ∧
      ((e₂.applyMutationsDeterministic c P).2.createSnapshot c tenantId snapshotId baseSeq
        now).1 = .ok snapshot ∧
      (e₃.restoreFromSnapshot c snapshot S).1 = .ok n'' ∧
      docMap (e₃.restoreFromSnapshot c snapshot S).2.storage c
        = docMap (e₁.applyMutationsDeterministic c (P ++ S)).2.storage c := by
  obtain ⟨hout₁, hfol₁⟩ := applyMutationsDeterministic_eq e₁ c (P ++ S)
  obtain ⟨hout₂, hfol₂⟩ := applyMutationsDeterministic_eq e₂ c P
  -- the one batch sorts and plans as `P` followed by `S`
  have hsort : (P ++ S).insertionSort CanonicalLe
      = P.insertionSort CanonicalLe ++ S.insertionSort CanonicalLe :=
    Sorting.insertionSort_append fun p hp s hs => (hcut p hp s hs).le
  have hsorted : ∀ {ms : List Mutation}, (∀ m ∈ ms, m.Applicable) →
      ∀ m ∈ ms.insertionSort CanonicalLe, m.Applicable := fun h m hm =>
    h m ((List.mem_insertionSort _).mp hm)
  have hstopP := plan_stopped (hsorted hP) []
  have hstopS := plan_stopped (hsorted hS)
  have hplan := plan_append [] (P.insertionSort CanonicalLe) (S.insertionSort CanonicalLe) hstopP
  have htail : (plan (plan [] (P.insertionSort CanonicalLe)).ids
        (S.insertionSort CanonicalLe)).kept
      = (plan [] (S.insertionSort CanonicalLe)).kept := by
    refine (plan_ids_congr fun s hs hne => iff_of_false (fun hin => ?_) (by simp)).1
    rcases mem_plan_ids hin with hin | ⟨-, p, hp, heq⟩
    · cases hin
    · exact hnew s ((List.mem_insertionSort _).mp hs) p ((List.mem_insertionSort _).mp hp) hne heq
  have hstop : (plan [] (P.insertionSort CanonicalLe ++ S.insertionSort CanonicalLe)).stopped
      = none := by
    rw [hplan]
    exact hstopS _
  rw [h₁.ids, hsort] at hout₁ hfol₁
  rw [h₂.ids] at hout₂ hfol₂
  -- the snapshot lists what `P` left
  obtain ⟨docs, hl, hall⟩ := findAllRaw_eq (e₂.applyMutationsDeterministic c P).2 c
  obtain ⟨docs', hl', hout₃, hdocs₃⟩ := restoreFromSnapshot_eq e₃ c
    ⟨snapshotId, tenantId, c.name, baseSeq, now, docs.map Prod.snd⟩ rfl S
  rw [hids] at hout₃ hdocs₃
  refine ⟨⟨snapshotId, tenantId, c.name, baseSeq, now, docs.map Prod.snd⟩, _, _, _,
    hout₁.trans (Plan.outcome_eq_ok hstop 0),
    hout₂.trans (Plan.outcome_eq_ok hstopP 0), by rw [createSnapshot, hall],
    hout₃.trans (Plan.outcome_eq_ok (hstopS _) 0), ?_⟩
  have hfiledP : Filed (docMap (e₂.applyMutationsDeterministic c P).2.storage) c := by
    rw [hfol₂.docs, h₂.docs]
    exact filed_foldl_deliver filed_empty c e₂.nodeId _ c
  have hrefill := placeAll_lists hfiledP hl ((wiped_eq_none_iff hl').mpr hfiled.wipeable)
  have hkept : (plan [] (P.insertionSort CanonicalLe ++ S.insertionSort CanonicalLe)).kept
      = (plan [] (P.insertionSort CanonicalLe)).kept
        ++ (plan [] (S.insertionSort CanonicalLe)).kept := by
    rw [hplan, Plan.andThen, htail]
  rw [hdocs₃, hfol₁.docs, hkept, List.foldl_append, hnode']
  refine foldl_deliver_congr ?_ c e₁.nodeId _
  rw [hrefill, hfol₂.docs, h₁.docs, h₂.docs, hnode]

end RangoEngine
end

section
attribute [local instance] Formatting.sample

/-- A newly opened node whose collection `"c"` holds one document. -/
def sampleStocked : RangoEngine MemoryStorage NullOplog :=
  RangoEngine.openEngine
    (MemoryStorage.put ⟨"c"⟩ ⟨.string "x"⟩ ⟨[("_id", .string "x")]⟩ MemoryStorage.new).2 ⟨0⟩ "a"

lemma sampleStocked_filed (c : CollectionName) : Filed (docMap sampleStocked.storage) c := by
  have hdocs : docMap sampleStocked.storage = _ :=
    MemoryStorage.view_put ⟨"c"⟩ ⟨.string "x"⟩ ⟨[("_id", .string "x")]⟩ MemoryStorage.new
  rw [hdocs]
  exact (filed_empty c).set ⟨"c"⟩ rfl

/-- The snapshot of that node, restored after a second document was inserted. -/
theorem RangoEngine.restore_undoes_insert :
    ∃ snapshot,
      (sampleStocked.createSnapshot ⟨"c"⟩ "tenant" "snapshot" 0 0).1 = .ok snapshot ∧
      ((sampleStocked.applyMutationsDeterministic ⟨"c"⟩ [sampleInsert]).2.restoreFromSnapshot ⟨"c"⟩
        snapshot []).1 = .ok 0 ∧
      docMap ((sampleStocked.applyMutationsDeterministic ⟨"c"⟩
          [sampleInsert]).2.restoreFromSnapshot ⟨"c"⟩ snapshot []).2.storage ⟨"c"⟩ =
        docMap sampleStocked.storage ⟨"c"⟩ := by
  refine restore_undoes (sampleStocked_filed ⟨"c"⟩) ?_ "tenant" "snapshot" 0 0
  rw [(applyMutationsDeterministic_eq sampleStocked ⟨"c"⟩ [sampleInsert]).2.docs]
  exact filed_foldl_deliver sampleStocked_filed ⟨"c"⟩ sampleStocked.nodeId _ ⟨"c"⟩

/-- The insert as the snapshot and the delete as the tail, restored over another document. -/
theorem RangoEngine.snapshot_tail_eq_replay_delete :
    ∃ snapshot n n' n'',
      ((sampleNode "a").applyMutationsDeterministic ⟨"c"⟩ ([sampleInsert] ++ [sampleDelete])).1
        = .ok n ∧
      ((sampleNode "a").applyMutationsDeterministic ⟨"c"⟩ [sampleInsert]).1 = .ok n' ∧
      (((sampleNode "a").applyMutationsDeterministic ⟨"c"⟩ [sampleInsert]).2.createSnapshot ⟨"c"⟩
        "tenant" "snapshot" 1 0).1 = .ok snapshot ∧
      (sampleStocked.restoreFromSnapshot ⟨"c"⟩ snapshot [sampleDelete]).1 = .ok n'' ∧
      docMap (sampleStocked.restoreFromSnapshot ⟨"c"⟩ snapshot [sampleDelete]).2.storage ⟨"c"⟩
        = docMap ((sampleNode "a").applyMutationsDeterministic ⟨"c"⟩
            ([sampleInsert] ++ [sampleDelete])).2.storage ⟨"c"⟩ :=
  snapshot_tail_eq_replay (sampleNode_fresh "a") (sampleNode_fresh "a") rfl
    (show sampleStocked.nodeId = (sampleNode "a").nodeId from rfl) rfl (sampleStocked_filed ⟨"c"⟩)
    (fun _ hm => List.mem_singleton.mp hm ▸
      (replicaSet_sample.wellFormed sampleInsert (by simp)).replayable.applicable)
    (fun _ hm => List.mem_singleton.mp hm ▸
      (replicaSet_sample.wellFormed sampleDelete (by simp)).replayable.applicable)
    (by unfold CanonicalLt; decide) (by decide) "tenant" "snapshot" 1 0

end
end Rango
