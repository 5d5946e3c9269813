import Rango.Core.FindTheorems
import Rango.Core.Requests
import Rango.Core.RestoreTheorems
import Rango.Core.WriteTheorems
import Rango.Storage.Denotation

/-!
# Engines that agree

Two engines over backends that stand for related documents: the same ones, or the same but for
tombstones (`UpToTombstones`). A request that does not look at what they differ in is answered alike
by both and leaves documents that are related again (`Agree.serve`). What a scan lists comes in the
order of the backend, so listings agree as multisets; a sorted query whose keys differ agrees
outright.
-/

namespace Rango

open Query StableSort

/-! ## Documents but for tombstones -/

/-- `D'` is `D` without some of its tombstones. -/
def Swept (D D' : DocMap) : Prop :=
  ∀ c k, D' c k = D c k ∨ (D' c k = none ∧ ∃ t, D c k = some t ∧ isDeleted t = true)

lemma Swept.of_some {D D' : DocMap} (h : Swept D D') {c : CollectionName} {k : String}
    {d : Document} (hget : D' c k = some d) : D c k = some d := by
  rcases h c k with heq | ⟨hnone, -⟩
  · rw [← heq, hget]
  · rw [hnone] at hget
    cases hget

/-- Apart from tombstones, both hold the same. -/
lemma Swept.visible {D D' : DocMap} (h : Swept D D') (c : CollectionName) (k : String) :
    (D' c k).filter (fun d => !isDeleted d) = (D c k).filter fun d => !isDeleted d := by
  rcases h c k with heq | ⟨hnone, t, ht, hdel⟩
  · rw [heq]
  · rw [hnone, ht, Option.filter_some, if_neg (by simp [hdel])]
    rfl

/-- The relation holds of maps that differ at most by tombstones, and still does when both get the
same document at the same place. -/
structure UpToTombstones (R : DocMap → DocMap → Prop) : Prop where
  swept : ∀ {D D'}, R D D' → Swept D D'
  set : ∀ {D D'}, R D D' → ∀ c k d, R (D.set c k (some d)) (D'.set c k (some d))

lemma upToTombstones_eq : UpToTombstones Eq where
  swept := by
    rintro D _ rfl c k
    exact Or.inl rfl
  set := by
    rintro D _ rfl c k d
    rfl

section
variable {D D' : DocMap} {c : CollectionName}

namespace RangoEngine

/-- Two lists of one collection list the same documents. -/
lemma Lists.perm [Formatting] {docs docs' : List (String × Document)} (h : Lists docs D c)
    (h' : Lists docs' D c) : docs.Perm docs' :=
  (List.perm_ext_iff_of_nodup (h.nodup.of_map _) (h'.nodup.of_map _)).mpr
    fun ⟨k, d⟩ => (h.mem k d).trans (h'.mem k d).symm

lemma Lists.congr [Formatting] {docs : List (String × Document)} (h : Lists docs D c)
    (hsame : D c = D' c) : Lists docs D' c := ⟨h.nodup, fun k d => by rw [h.mem, hsame]⟩

/-- Lists of maps that differ by tombstones list the same documents apart from these. -/
lemma Lists.visible_perm [Formatting] {docs docs' : List (String × Document)} (h : Lists docs D c)
    (h' : Lists docs' D' c) (hswept : Swept D D') :
    ((docs.map Prod.snd).filter fun d => !isDeleted d).Perm
      ((docs'.map Prod.snd).filter fun d => !isDeleted d) := by
  rw [List.filter_map, List.filter_map]
  apply List.Perm.map
  have hnodup := (h.nodup.of_map _).filter fun x : String × Document => !isDeleted x.2
  have hnodup' := (h'.nodup.of_map _).filter fun x : String × Document => !isDeleted x.2
  apply (List.perm_ext_iff_of_nodup hnodup hnodup').mpr
  rintro ⟨k, d⟩
  rw [List.mem_filter, List.mem_filter, h.mem, h'.mem]
  apply and_congr_left
  intro hlive
  rcases hswept c k with heq | ⟨hnone, t, ht, hdel⟩
  · rw [heq]
  · rw [hnone, ht]
    simp only [Option.some.injEq, reduceCtorEq, iff_false]
    rintro rfl
    simp [hdel] at hlive

end RangoEngine

/-- What passes over tombstones makes the same of lists that agree apart from these. -/
lemma filterMap_perm_of_visible {α : Type} {f : Document → Option α}
    (hf : ∀ d, isDeleted d = true → f d = none) {l l' : List Document}
    (h : (l.filter fun d => !isDeleted d).Perm (l'.filter fun d => !isDeleted d)) :
    (l.filterMap f).Perm (l'.filterMap f) := by
  have hpass : ∀ l : List Document,
      l.filterMap f = (l.filter fun d => !isDeleted d).filterMap f := by
    intro l
    rw [List.filterMap_filter]
    apply List.filterMap_congr
    intro d _
    by_cases hdel : isDeleted d = true
    · simp [hdel, hf d hdel]
    · simp [hdel]
  rw [hpass l, hpass l']
  exact h.filterMap f

lemma filter_perm_of_visible {p : Document → Bool} (hp : ∀ d, isDeleted d = true → p d = false)
    {l l' : List Document}
    (h : (l.filter fun d => !isDeleted d).Perm (l'.filter fun d => !isDeleted d)) :
    (l.filter p).Perm (l'.filter p) := by
  have hpass : ∀ l : List Document, l.filter p = (l.filter fun d => !isDeleted d).filter p := by
    intro l
    rw [List.filter_filter]
    apply List.filter_congr
    intro d _
    by_cases hdel : isDeleted d = true
    · simp [hdel, hp d hdel]
    · simp [hdel]
  rw [hpass l, hpass l']
  exact h.filter p

/-! ## Emptying places -/

variable [Formatting]

/-- The map without the places that the documents of a collection with property `p` carry. -/
noncomputable def DocMap.emptied (D : DocMap) (c : CollectionName) (p : Document → Bool) :
    DocMap :=
  open Classical in
  fun c' k => if c' = c ∧ ∃ k' d, D c k' = some d ∧ p d = true ∧ d.printedId = some k then none
    else D c' k

/-- Emptying the places that listed documents carry leaves the others. -/
lemma placeAll_none_eq (docs : List Document) (c' : CollectionName) (k : String) :
    placeAll c (fun _ => none) D docs c' k =
      if c' = c ∧ ∃ d ∈ docs, d.printedId = some k then none else D c' k := by
  induction docs generalizing D with
  | nil => simp [placeAll]
  | cons d rest ih =>
    cases hd : d.printedId with
    | none =>
      rw [placeAll_cons_none c _ D hd, ih]
      simp [hd]
    | some k' =>
      rw [placeAll_cons_some c _ D hd, ih]
      by_cases hk : c' = c ∧ k = k'
      · obtain ⟨rfl, rfl⟩ := hk
        simp [hd]
      · rw [D.set_of_ne none hk]
        refine if_congr (and_congr_right fun hc => ?_) rfl rfl
        have hne : k' ≠ k := fun heq => hk ⟨hc, heq.symm⟩
        simp [hd, hne]

/-- A list of the collection gives these places. -/
lemma RangoEngine.Lists.placeAll_none {docs : List (String × Document)} (h : Lists docs D c)
    (p : Document → Bool) :
    placeAll c (fun _ => none) D ((docs.map Prod.snd).filter p) = D.emptied c p := by
  funext c' k
  rw [placeAll_none_eq, DocMap.emptied]
  have hiff : (∃ d ∈ (docs.map Prod.snd).filter p, d.printedId = some k) ↔
      ∃ k' d, D c k' = some d ∧ p d = true ∧ d.printedId = some k := by
    constructor
    · rintro ⟨d, hd, hk⟩
      obtain ⟨hin, hp⟩ := List.mem_filter.mp hd
      obtain ⟨⟨k', d⟩, hmem, rfl⟩ := List.mem_map.mp hin
      exact ⟨k', d, (h.mem k' d).mp hmem, hp, hk⟩
    · rintro ⟨k', d, hget, hp, hk⟩
      refine ⟨d, List.mem_filter.mpr ⟨?_, hp⟩, hk⟩
      exact List.mem_map_of_mem (f := Prod.snd) ((h.mem k' d).mpr hget)
  classical exact if_congr (and_congr_right fun _ => hiff) rfl rfl

end

namespace RangoEngine

/-! ## Deleting what is listed -/

section
variable {σ ω : Type} {holds : σ → DocMap → Prop} [Formatting] [StorageEngine σ]
  {S : Set CollectionName} (h : MapOn S holds) {e : RangoEngine σ ω} {D : DocMap}
  {c : CollectionName}
include h

/-- A wipe empties the places that the listed documents carry. -/
lemma wipe_holds (he : holds e.storage D) (hc : c ∈ S) (docs : List Document) :
    ∃ s, wipe c e docs = (.ok (), { e with storage := s }) ∧
      holds s (placeAll c (fun _ => none) D docs) := by
  induction docs generalizing e D with
  | nil => exact ⟨e.storage, rfl, he⟩
  | cons d rest ih =>
    unfold wipe
    cases hd : d.get "_id" with
    | none =>
      rw [placeAll_cons_none _ _ _ (by simp [Document.printedId, hd])]
      exact ih he
    | some b =>
      obtain ⟨s, hdel, hs⟩ := h.delete he c hc (DocumentId.fromBson b)
      rw [placeAll_cons_some _ _ _ (by rw [Document.printedId, hd]; rfl)]
      obtain ⟨s', hrest, hs'⟩ := ih (e := { e with storage := s }) hs
      refine ⟨s', ?_, hs'⟩
      simp only [storageDelete, hdel, hrest]

/-- The loop deletes by the `_id` of each tombstone, and counts those that have one. -/
lemma gcLoop_holds (he : holds e.storage D) (hc : c ∈ S) (removed : ℕ) (docs : List Document) :
    ∃ s, gcLoop c e removed (docs.map .ok) =
        (.ok (removed + ((docs.filter isDeleted).filter fun d => (d.get "_id").isSome).length),
          { e with storage := s }) ∧
      holds s (placeAll c (fun _ => none) D (docs.filter isDeleted)) := by
  induction docs generalizing e D removed with
  | nil => exact ⟨e.storage, rfl, he⟩
  | cons d rest ih =>
    rw [List.map_cons]
    unfold gcLoop
    by_cases hdel : isDeleted d = true
    · rw [if_pos hdel, List.filter_cons_of_pos hdel]
      cases hd : d.get "_id" with
      | none =>
        rw [placeAll_cons_none _ _ _ (by simp [Document.printedId, hd]),
          List.filter_cons_of_neg (by simp [hd])]
        exact ih he removed
      | some b =>
        obtain ⟨s, hcall, hs⟩ := h.delete he c hc (DocumentId.fromBson b)
        rw [placeAll_cons_some _ _ _ (by rw [Document.printedId, hd]; rfl),
          List.filter_cons_of_pos (by simp [hd]), List.length_cons]
        obtain ⟨s', hrest, hs'⟩ := ih (e := { e with storage := s }) hs (removed + 1)
        refine ⟨s', ?_, hs'⟩
        simp only [storageDelete, hcall, hrest]
        rw [Nat.add_right_comm, Nat.add_assoc]
    · rw [if_neg hdel, List.filter_cons_of_neg hdel]
      exact ih he removed

end

/-! ## Engines over two backends -/

variable {σ τ ω : Type} {R : DocMap → DocMap → Prop} {holds : σ → DocMap → Prop}
  {holds' : τ → DocMap → Prop}

/-- Two engines over storage that stands for the related documents `D` and `D'`, and otherwise
equal. -/
structure Agree (R : DocMap → DocMap → Prop) (holds : σ → DocMap → Prop)
    (holds' : τ → DocMap → Prop) (D D' : DocMap) (e : RangoEngine σ ω) (g : RangoEngine τ ω) :
    Prop where
  related : R D D'
  left : holds e.storage D
  right : holds' g.storage D'
  oplog : g.oplog = e.oplog
  nodeId : g.nodeId = e.nodeId
  config : g.config = e.config
  appliedWriteIds : g.appliedWriteIds = e.appliedWriteIds
  replayDriftDetections : g.replayDriftDetections = e.replayDriftDetections

/-- Two calls have returned the same, and left engines that agree. -/
def InStep {α : Type} (R : DocMap → DocMap → Prop) (holds : σ → DocMap → Prop)
    (holds' : τ → DocMap → Prop) (r : α × RangoEngine σ ω) (r' : α × RangoEngine τ ω) : Prop :=
  r'.1 = r.1 ∧ ∃ D D', Agree R holds holds' D D' r.2 r'.2

/-- Such calls by what they return and leave. -/
lemma InStep.split {α : Type} {r : α × RangoEngine σ ω} {r' : α × RangoEngine τ ω}
    (h : InStep R holds holds' r r') :
    ∃ answer e g D D', r = (answer, e) ∧ r' = (answer, g) ∧ Agree R holds holds' D D' e g := by
  obtain ⟨hanswer, D, D', ha⟩ := h
  exact ⟨r.1, r.2, r'.2, D, D', rfl, Prod.ext hanswer rfl, ha⟩

namespace Agree

variable {D D' : DocMap} {e : RangoEngine σ ω} {g : RangoEngine τ ω}

lemma inStep {α : Type} (ha : Agree R holds holds' D D' e g) (answer : α) :
    InStep R holds holds' (answer, e) (answer, g) := ⟨rfl, D, D', ha⟩

lemma withStorage (ha : Agree R holds holds' D D' e g) {D₁ D₁' : DocMap} {s : σ} {s' : τ}
    (hrelated : R D₁ D₁') (hs : holds s D₁) (hs' : holds' s' D₁') :
    Agree R holds holds' D₁ D₁' { e with storage := s } { g with storage := s' } :=
  ⟨hrelated, hs, hs', ha.oplog, ha.nodeId, ha.config, ha.appliedWriteIds, ha.replayDriftDetections⟩

section Calls
variable [Formatting] [StorageEngine σ] [StorageEngine τ] {S : Set CollectionName}
  (hR : UpToTombstones R) (h : MapOn S holds) (h' : MapOn S holds') {c : CollectionName}
include h h'

lemma storageGet (ha : Agree R holds holds' D D' e g) (hc : c ∈ S) (id : DocumentId) :
    ∃ e₁ g₁, e.storageGet c id = (.ok (D c id.toString), e₁) ∧
      g.storageGet c id = (.ok (D' c id.toString), g₁) ∧ Agree R holds holds' D D' e₁ g₁ := by
  obtain ⟨s, hget, hs⟩ := h.get ha.left c hc id
  obtain ⟨s', hget', hs'⟩ := h'.get ha.right c hc id
  refine ⟨{ e with storage := s }, { g with storage := s' }, ?_, ?_,
    ha.withStorage ha.related hs hs'⟩
  · rw [RangoEngine.storageGet, hget]
  · rw [RangoEngine.storageGet, hget']

include hR in
lemma storagePut (ha : Agree R holds holds' D D' e g) (hc : c ∈ S) (id : DocumentId)
    (doc : Document) :
    ∃ e₁ g₁, e.storagePut c id doc = (.ok (), e₁) ∧ g.storagePut c id doc = (.ok (), g₁) ∧
      Agree R holds holds' (D.set c id.toString (some doc)) (D'.set c id.toString (some doc)) e₁
        g₁ := by
  obtain ⟨s, hput, hs⟩ := h.put ha.left c hc id doc
  obtain ⟨s', hput', hs'⟩ := h'.put ha.right c hc id doc
  refine ⟨{ e with storage := s }, { g with storage := s' }, ?_, ?_,
    ha.withStorage (hR.set ha.related _ _ _) hs hs'⟩
  · rw [RangoEngine.storagePut, hput]
  · rw [RangoEngine.storagePut, hput']

include hR in
lemma put_inStep (ha : Agree R holds holds' D D' e g) (hc : c ∈ S) (id : DocumentId)
    (doc : Document) :
    InStep R holds holds' (e.storagePut c id doc) (g.storagePut c id doc) := by
  obtain ⟨e₁, g₁, hput, hput', ha₁⟩ := ha.storagePut hR h h' hc id doc
  rw [hput, hput']
  exact ha₁.inStep _

/-- Both scans list the collection, each in its own order. -/
lemma storageScan (ha : Agree R holds holds' D D' e g) (hc : c ∈ S) :
    ∃ docs docs' e₁ g₁, e.storageScan c = (.ok (docs.map fun x => .ok x.2), e₁) ∧
      g.storageScan c = (.ok (docs'.map fun x => .ok x.2), g₁) ∧
      Lists docs D c ∧ Lists docs' D' c ∧ Agree R holds holds' D D' e₁ g₁ := by
  obtain ⟨docs, s, hscan, hs, hnodup, hmem⟩ := h.scan ha.left c hc
  obtain ⟨docs', s', hscan', hs', hnodup', hmem'⟩ := h'.scan ha.right c hc
  refine ⟨docs, docs', { e with storage := s }, { g with storage := s' }, ?_, ?_,
    ⟨hnodup, hmem⟩, ⟨hnodup', hmem'⟩, ha.withStorage ha.related hs hs'⟩
  · rw [RangoEngine.storageScan, hscan]
  · rw [RangoEngine.storageScan, hscan']

lemma findAllRaw (ha : Agree R holds holds' D D' e g) (hc : c ∈ S) :
    ∃ docs docs' e₁ g₁, e.findAllRaw c = (.ok (docs.map Prod.snd), e₁) ∧
      g.findAllRaw c = (.ok (docs'.map Prod.snd), g₁) ∧ Lists docs D c ∧ Lists docs' D' c ∧
      Agree R holds holds' D D' e₁ g₁ := by
  obtain ⟨docs, docs', e₁, g₁, hscan, hscan', hl, hl', ha₁⟩ := ha.storageScan h h' hc
  refine ⟨docs, docs', e₁, g₁, ?_, ?_, hl, hl', ha₁⟩
  · simp [RangoEngine.findAllRaw, hscan, Except.toOption, Function.comp_def, List.filterMap_map]
  · simp [RangoEngine.findAllRaw, hscan', Except.toOption, Function.comp_def, List.filterMap_map]

/-! ## Remote mutations -/

include hR

lemma applyRemoteMutation (ha : Agree R holds holds' D D' e g) (hc : c ∈ S) (doc : Document) :
    InStep R holds holds' (e.applyRemoteMutation c doc) (g.applyRemoteMutation c doc) := by
  unfold RangoEngine.applyRemoteMutation
  cases doc.get "_id" with
  | none => exact ha.inStep _
  | some b =>
    obtain ⟨e₁, g₁, hget, hget', ha₁⟩ := ha.storageGet h h' hc (DocumentId.fromBson b)
    simp only [hget, hget']
    rcases hR.swept ha.related c (DocumentId.fromBson b).toString with
      heq | ⟨hnone, t, ht, hdel⟩
    · rw [heq]
      cases D c (DocumentId.fromBson b).toString with
      | none => exact ha₁.put_inStep hR h h' hc _ _
      | some l =>
        dsimp only
        split_ifs
        · exact ha₁.put_inStep hR h h' hc _ _
        · cases (docRevision doc).cmp (docRevision l) with
          | gt => exact ha₁.put_inStep hR h h' hc _ _
          | lt => exact ha₁.put_inStep hR h h' hc _ _
          | eq => exact ha₁.inStep _
    · -- a tombstone is overwritten, as if nothing were there
      rw [hnone, ht]
      dsimp only
      rw [if_pos hdel]
      exact ha₁.put_inStep hR h h' hc _ _

omit [Formatting] [StorageEngine σ] [StorageEngine τ] hR h h' in
lemma recorded (ha : Agree R holds holds' D D' e g) (m : Mutation) :
    Agree R holds holds' D D' (e.recorded m) (g.recorded m) := by
  unfold RangoEngine.recorded
  split_ifs
  · exact ⟨ha.related, ha.left, ha.right, ha.oplog, ha.nodeId, ha.config,
      congrArg (m.writeId :: ·) ha.appliedWriteIds, ha.replayDriftDetections⟩
  · exact ha

/-- The loop over a batch takes the same turns. -/
lemma applyLoop (default : CollectionName) (ms : List Mutation)
    (hnames : ∀ m ∈ ms, mutationCollection default m ∈ S) (ha : Agree R holds holds' D D' e g)
    (seen : List String) (applied : ℕ) (drift : Bool) :
    InStep R holds holds' (RangoEngine.applyLoop default e seen applied drift ms)
      (RangoEngine.applyLoop default g seen applied drift ms) := by
  induction ms generalizing D D' e g seen applied drift with
  | nil => exact ha.inStep _
  | cons m rest ih =>
    have hrest : ∀ x ∈ rest, mutationCollection default x ∈ S :=
      fun x hx => hnames x (List.mem_cons_of_mem m hx)
    cases hval : m.validateMetadata with
    | error err =>
      rw [applyLoop_of_invalid hval, applyLoop_of_invalid hval]
      exact ha.inStep _
    | ok _ =>
      by_cases hseen : m.writeId ≠ "" ∧ m.writeId ∈ seen
      · rw [applyLoop_of_seen hval hseen, applyLoop_of_seen hval hseen]
        exact ih hrest ha _ _ _
      · by_cases hdup : m.writeId ≠ "" ∧ m.writeId ∈ e.appliedWriteIds
        · rw [applyLoop_of_dup hval hseen hdup,
            applyLoop_of_dup hval hseen (ha.appliedWriteIds ▸ hdup)]
          exact ih hrest ha _ _ _
        · rw [applyLoop_of_new hval hseen hdup,
            applyLoop_of_new hval hseen (ha.appliedWriteIds ▸ hdup), (ha.recorded m).nodeId]
          -- both have recorded the write id, and now deliver the same document
          obtain ⟨r, e₁, g₁, D₁, D₁', hrun, hrun', ha₁⟩ :=
            ((ha.recorded m).applyRemoteMutation hR h h' (hnames m List.mem_cons_self)
              (mutationDocument (e.recorded m).nodeId m)).split
          rw [hrun, hrun']
          cases r with
          | error err => exact ha₁.inStep _
          | ok _ => exact ih hrest ha₁ _ _ _

lemma applyMutationsDeterministic (default : CollectionName) (ms : List Mutation)
    (hnames : ∀ m ∈ ms, mutationCollection default m ∈ S) (ha : Agree R holds holds' D D' e g) :
    InStep R holds holds' (e.applyMutationsDeterministic default ms)
      (g.applyMutationsDeterministic default ms) := by
  have hloop := ha.applyLoop hR h h' default (ms.insertionSort CanonicalLe)
    (fun m hm => hnames m ((List.mem_insertionSort _).mp hm)) [] 0 (receivedOutOfOrder ms)
  unfold RangoEngine.applyMutationsDeterministic
  obtain ⟨r, e₁, g₁, D₁, D₁', hrun, hrun', ha₁⟩ := hloop.split
  rw [hrun, hrun']
  cases r with
  | error err => exact ha₁.inStep _
  | ok counts =>
    obtain ⟨applied, drift⟩ := counts
    dsimp only
    rw [ha₁.replayDriftDetections]
    refine ⟨rfl, D₁, D₁', ?_⟩
    cases drift with
    | false => exact ha₁
    | true => exact ⟨ha₁.related, ha₁.left, ha₁.right, ha₁.oplog, ha₁.nodeId, ha₁.config,
        ha₁.appliedWriteIds, rfl⟩

/-! ## Snapshots -/

omit hR in
/-- A wipe needs documents that are still related without the places it empties. -/
lemma wipe (ha : Agree R holds holds' D D' e g) (hc : c ∈ S) {docs docs' : List (String × Document)}
    (hl : Lists docs D c) (hl' : Lists docs' D' c)
    (hwiped : R (D.emptied c fun _ => true) (D'.emptied c fun _ => true)) :
    ∃ e₁ g₁ D₁ D₁', RangoEngine.wipe c e (docs.map Prod.snd) = (.ok (), e₁) ∧
      RangoEngine.wipe c g (docs'.map Prod.snd) = (.ok (), g₁) ∧
      Agree R holds holds' D₁ D₁' e₁ g₁ := by
  obtain ⟨s, hwipe, hs⟩ := wipe_holds h ha.left hc (docs.map Prod.snd)
  obtain ⟨s', hwipe', hs'⟩ := wipe_holds h' ha.right hc (docs'.map Prod.snd)
  have hplaces := hl.placeAll_none fun _ => true
  have hplaces' := hl'.placeAll_none fun _ => true
  rw [List.filter_true] at hplaces hplaces'
  rw [hplaces] at hs
  rw [hplaces'] at hs'
  exact ⟨_, _, _, _, hwipe, hwipe', ha.withStorage hwiped hs hs'⟩

lemma refill (ha : Agree R holds holds' D D' e g) (hc : c ∈ S) (docs : List Document) :
    ∃ e₁ g₁ D₁ D₁', RangoEngine.refill c e docs = (.ok (), e₁) ∧
      RangoEngine.refill c g docs = (.ok (), g₁) ∧ Agree R holds holds' D₁ D₁' e₁ g₁ := by
  induction docs generalizing e g D D' with
  | nil => exact ⟨e, g, D, D', rfl, rfl, ha⟩
  | cons d rest ih =>
    unfold RangoEngine.refill
    cases hd : d.get "_id" with
    | none => exact ih ha
    | some b =>
      obtain ⟨e₁, g₁, hput, hput', ha₁⟩ := ha.storagePut hR h h' hc (DocumentId.fromBson b) d
      simp only [hput, hput']
      exact ih ha₁

lemma restoreFromSnapshot (ha : Agree R holds holds' D D' e g) (hc : c ∈ S)
    (hwiped : R (D.emptied c fun _ => true) (D'.emptied c fun _ => true))
    (snapshot : SnapshotUnit) (replay : List Mutation)
    (hnames : ∀ m ∈ replay, mutationCollection c m ∈ S) :
    InStep R holds holds' (e.restoreFromSnapshot c snapshot replay)
      (g.restoreFromSnapshot c snapshot replay) := by
  unfold RangoEngine.restoreFromSnapshot
  split_ifs
  · exact ha.inStep _
  · obtain ⟨docs, docs', e₁, g₁, hall, hall', hl, hl', ha₁⟩ := ha.findAllRaw h h' hc
    obtain ⟨e₂, g₂, D₂, D₂', hwipe, hwipe', ha₂⟩ := ha₁.wipe h h' hc hl hl' hwiped
    obtain ⟨e₃, g₃, D₃, D₃', hrefill, hrefill', ha₃⟩ := ha₂.refill hR h h' hc snapshot.state
    simp only [hall, hall', hwipe, hwipe', hrefill, hrefill']
    exact ha₃.applyMutationsDeterministic hR h h' c replay hnames

lemma rollbackToSnapshot (ha : Agree R holds holds' D D' e g) (hc : c ∈ S)
    (hwiped : R (D.emptied c fun _ => true) (D'.emptied c fun _ => true))
    (snapshot : SnapshotUnit) (rollback : RollbackUnit) (window : List Mutation)
    (hnames : ∀ m ∈ window, mutationCollection c m ∈ S) (now : DateTime) :
    InStep R holds holds' (e.rollbackToSnapshot c snapshot rollback window now)
      (g.rollbackToSnapshot c snapshot rollback window now) := by
  unfold RangoEngine.rollbackToSnapshot
  split_ifs
  · exact ha.inStep _
  · exact ha.inStep _
  · exact ha.inStep _
  · set replay := window.filter fun m => m.seq ≤ rollback.targetSeq with hreplay
    have hreplayed : ∀ m ∈ replay, mutationCollection c m ∈ S :=
      fun m hm => hnames m (List.mem_of_mem_filter hm)
    obtain ⟨r, e₁, g₁, D₁, D₁', hrun, hrun', ha₁⟩ :=
      (ha.restoreFromSnapshot hR h h' hc hwiped snapshot replay hreplayed).split
    rw [hrun, hrun']
    cases r with
    | error err => exact ha₁.inStep _
    | ok applied => exact ha₁.inStep _

/-! ## Garbage collection -/

omit hR in
/-- Collections of the same documents. -/
lemma gcDeleted (ha : Agree R holds holds' D D' e g) (hc : c ∈ S) (hsame : D' c = D c)
    (hswept : R (D.emptied c isDeleted) (D'.emptied c isDeleted)) :
    InStep R holds holds' (e.gcDeleted c) (g.gcDeleted c) := by
  obtain ⟨docs, docs', e₁, g₁, hscan, hscan', hl, hl', ha₁⟩ := ha.storageScan h h' hc
  have hperm : ((docs.map Prod.snd).filter isDeleted).Perm
      ((docs'.map Prod.snd).filter isDeleted) :=
    ((hl.perm (hl'.congr hsame)).map _).filter _
  obtain ⟨s, hgc, hs⟩ := gcLoop_holds h ha₁.left hc 0 (docs.map Prod.snd)
  obtain ⟨s', hgc', hs'⟩ := gcLoop_holds h' ha₁.right hc 0 (docs'.map Prod.snd)
  rw [List.map_map] at hgc hgc'
  rw [hl.placeAll_none] at hs
  rw [hl'.placeAll_none] at hs'
  rw [← (hperm.filter _).length_eq] at hgc'
  unfold RangoEngine.gcDeleted
  rw [hscan, hscan']
  dsimp only
  rw [show (docs.map fun x => Except.ok x.2) = docs.map (.ok ∘ Prod.snd) from rfl, hgc,
    show (docs'.map fun x => Except.ok x.2) = docs'.map (.ok ∘ Prod.snd) from rfl, hgc']
  exact ⟨rfl, _, _, ha₁.withStorage hswept hs hs'⟩

/-! ## Conflicts -/

lemma resolveConflict (ha : Agree R holds holds' D D' e g) (hc : c ∈ S) (id : DocumentId)
    (hsame : D' c id.toString = D c id.toString) (chosenRev : Revision) :
    InStep R holds holds' (e.resolveConflict c id chosenRev)
      (g.resolveConflict c id chosenRev) := by
  obtain ⟨e₁, g₁, hget, hget', ha₁⟩ := ha.storageGet h h' hc id
  unfold RangoEngine.resolveConflict
  simp only [hget, hget', hsame]
  cases D c id.toString with
  | none => exact ha₁.inStep _
  | some doc =>
    dsimp only
    cases doc.getArray "_conflicts" with
    | none => exact ha₁.inStep _
    | some arr =>
      dsimp only
      rcases chooseLoop chosenRev [] none arr with ⟨newConflicts, chosen⟩
      cases chosen with
      | none => exact ha₁.inStep _
      | some chosenDoc => exact ha₁.put_inStep hR h h' hc id _

/-! ## Local writes -/

section
variable [Oplog ω]

omit hR h h' [StorageEngine σ] [StorageEngine τ] [Formatting] in
/-- Both report to the same oplog. -/
lemma report (ha : Agree R holds holds' D D' e g) (m : Mutation) (t : WriteClock) :
    InStep R holds holds' (e.report m t) (g.report m t) := by
  rw [report_eq, report_eq, ha.oplog]
  cases m.validateMetadata with
  | error err => exact ha.inStep _
  | ok _ => exact ⟨rfl, D, D', ha.related, ha.left, ha.right, rfl, ha.nodeId, ha.config,
      ha.appliedWriteIds, ha.replayDriftDetections⟩

variable [MutationHasher]

/-- The end of a local write: put the document, report the mutation, and give the method's own
answer. -/
lemma putReport {α β : Type} (ha : Agree R holds holds' D D' e g) (hc : c ∈ S)
    (fault : RangoError → β) (value : α) (op : MutationOp) (id : DocumentId) (doc : Document)
    (patch : Option Document) (rev : Revision) (t : WriteClock) :
    InStep R holds holds'
      (match e.storagePut c id doc with
        | (.error err, e) => ((.error (fault err) : Except β α), e)
        | (.ok (), e) =>
          match e.report (e.localMutation op c id patch rev t) t with
          | (.error err, e) => (.error (fault err), e)
          | (.ok (), e) => (.ok value, e))
      (match g.storagePut c id doc with
        | (.error err, e) => ((.error (fault err) : Except β α), e)
        | (.ok (), e) =>
          match e.report (e.localMutation op c id patch rev t) t with
          | (.error err, e) => (.error (fault err), e)
          | (.ok (), e) => (.ok value, e)) := by
  obtain ⟨e₁, g₁, hput, hput', ha₁⟩ := ha.storagePut hR h h' hc id doc
  rw [hput, hput']
  dsimp only
  have hmutation : g₁.localMutation op c id patch rev t = e₁.localMutation op c id patch rev t := by
    simp only [localMutation, ha₁.nodeId]
  rw [hmutation]
  obtain ⟨r, e₂, g₂, D₂, D₂', hrun, hrun', ha₂⟩ :=
    (ha₁.report (e₁.localMutation op c id patch rev t) t).split
  rw [hrun, hrun']
  cases r with
  | error err => exact ha₂.inStep _
  | ok _ => exact ha₂.inStep _

lemma deleteOne (ha : Agree R holds holds' D D' e g) (hc : c ∈ S) (id : DocumentId)
    (hsame : D' c id.toString = D c id.toString) (t : WriteClock) :
    InStep R holds holds' (e.deleteOne c id t) (g.deleteOne c id t) := by
  obtain ⟨e₁, g₁, hget, hget', ha₁⟩ := ha.storageGet h h' hc id
  unfold RangoEngine.deleteOne
  rw [hget, hget', hsame]
  cases D c id.toString with
  | none => exact ha₁.inStep _
  | some doc =>
    simp only [ha₁.nodeId]
    exact ha₁.putReport hR h h' hc (fun err => err) true _ _ _ _ _ _

variable [BsonCodec]

omit hR h h' [StorageEngine σ] [StorageEngine τ] [Formatting] [Oplog ω] [MutationHasher] in
lemma validateDocumentSize (ha : Agree R holds holds' D D' e g) (doc : Document) :
    g.validateDocumentSize doc = e.validateDocumentSize doc := by
  unfold RangoEngine.validateDocumentSize
  rw [ha.config]

lemma insertOne (ha : Agree R holds holds' D D' e g) (hc : c ∈ S) (doc : Document)
    (t : WriteClock) :
    InStep R holds holds' (e.insertOne c doc t) (g.insertOne c doc t) := by
  unfold RangoEngine.insertOne
  simp only [ha.validateDocumentSize, ha.nodeId]
  cases e.validateDocumentSize doc with
  | error err => exact ha.inStep _
  | ok _ =>
    dsimp only
    cases e.validateDocumentSize ((stamp e.nodeId
      (Revision.new t.revisionMs t.revisionCounter e.nodeId) t
      (doc.insert "_id" (insertId doc t).bson)).remove "_deleted") with
    | error err => exact ha.inStep _
    | ok _ => exact ha.putReport hR h h' hc (fun err => err) (insertId doc t) _ _ _ _ _ _

lemma updateOne [Arithmetic] (ha : Agree R holds holds' D D' e g) (hc : c ∈ S) (id : DocumentId)
    (update : Document) (t : WriteClock) :
    InStep R holds holds' (e.updateOne c id update t) (g.updateOne c id update t) := by
  obtain ⟨e₁, g₁, hget, hget', ha₁⟩ := ha.storageGet h h' hc id
  unfold RangoEngine.updateOne
  rw [hget, hget']
  rcases hR.swept ha.related c id.toString with heq | ⟨hnone, t, ht, hdel⟩
  · rw [heq]
    cases D c id.toString with
    | none => exact ha₁.inStep _
    | some doc =>
      dsimp only
      split_ifs
      · exact ha₁.inStep _
      · cases applyUpdate doc update with
        | error fault => exact ha₁.inStep _
        | ok new =>
          simp only [ha₁.validateDocumentSize, ha₁.nodeId]
          cases e₁.validateDocumentSize (stamp e₁.nodeId
            (Revision.new t.revisionMs t.revisionCounter e₁.nodeId) t new) with
          | error err => exact ha₁.inStep _
          | ok _ => exact ha₁.putReport hR h h' hc Fault.error true _ _ _ _ _ _
  · rw [hnone, ht]
    dsimp only
    rw [if_pos hdel]
    exact ha₁.inStep _

end

/-! ## Reading -/

omit hR in
lemma createSnapshot (ha : Agree R holds holds' D D' e g) (hc : c ∈ S) (hsame : D' c = D c)
    (tenantId snapshotId : String) (baseSeq : ℕ) (now : DateTime) :
    ∃ state state' e₁ g₁, state.Perm state' ∧
      e.createSnapshot c tenantId snapshotId baseSeq now =
        (.ok { snapshotId, tenantId, nameSpace := c.name, baseSeq, createdAt := now, state }, e₁) ∧
      g.createSnapshot c tenantId snapshotId baseSeq now =
        (.ok { snapshotId, tenantId, nameSpace := c.name, baseSeq, createdAt := now
               state := state' }, g₁) ∧ Agree R holds holds' D D' e₁ g₁ := by
  obtain ⟨docs, docs', e₁, g₁, hall, hall', hl, hl', ha₁⟩ := ha.findAllRaw h h' hc
  have hperm : docs.Perm docs' := hl.perm (hl'.congr hsame)
  refine ⟨docs.map Prod.snd, docs'.map Prod.snd, e₁, g₁, hperm.map _, ?_, ?_, ha₁⟩
  · rw [RangoEngine.createSnapshot, hall]
  · rw [RangoEngine.createSnapshot, hall']

end Calls
end Agree
end RangoEngine

/-! ## Listings, document by document -/

/-- What `list_conflicts` lists for a document with an `_id`. -/
def conflictEntry (doc : Document) : Option (DocumentId × List Document) :=
  if isDeleted doc then none
  else
    match doc.getArray "_conflicts" with
    | none => none
    | some arr =>
      if RangoEngine.documentsOf arr = [] then none
      else (doc.get "_id").map fun b => (DocumentId.fromBson b, RangoEngine.documentsOf arr)

lemma conflictEntry_of_deleted (doc : Document) (h : isDeleted doc = true) :
    conflictEntry doc = none := if_pos h

/-- When each document has an `_id`, no UUID is drawn, and each is listed by itself. -/
lemma listConflictsLoop_eq (draw : ℕ → List UInt8) (drawn : ℕ) {docs : List Document}
    (hids : ∀ d ∈ docs, (d.get "_id").isSome) (results : List (DocumentId × List Document)) :
    RangoEngine.listConflictsLoop draw drawn results (docs.map .ok) =
      .ok (results ++ docs.filterMap conflictEntry) := by
  induction docs generalizing results with
  | nil => simp [RangoEngine.listConflictsLoop]
  | cons d rest ih =>
    have hrest : ∀ x ∈ rest, (x.get "_id").isSome := fun x hx => hids x (List.mem_cons_of_mem d hx)
    obtain ⟨b, hb⟩ := Option.isSome_iff_exists.mp (hids d List.mem_cons_self)
    rw [List.map_cons, RangoEngine.listConflictsLoop, List.filterMap_cons, conflictEntry, hb]
    split_ifs
    · exact ih hrest results
    · cases d.getArray "_conflicts" with
      | none => exact ih hrest results
      | some arr =>
        dsimp only
        split_ifs
        · exact ih hrest results
        · rw [ih hrest, List.append_assoc]
          rfl

section
variable [BsonTraits]

/-- What the filter makes of one document of a scan. -/
def filteredItem (filter doc : Document) : Option (Except RangoError Document) :=
  if isDeleted doc then none
  else
    match matchesFilter doc filter with
    | .ok true => some (.ok doc)
    | .ok false => none
    | .error err => some (.error err)

lemma filteredItem_of_deleted (filter doc : Document) (h : isDeleted doc = true) :
    filteredItem filter doc = none := if_pos h

lemma selects_of_deleted (filter doc : Document) (h : isDeleted doc = true) :
    selects filter doc = false := by
  rw [selects, h]
  rfl

lemma filteredIter_eq (filter : Document) (docs : List Document) :
    filteredIter filter false (docs.map .ok) = docs.filterMap (filteredItem filter) := by
  induction docs with
  | nil => rfl
  | cons doc rest ih =>
    rw [List.map_cons, filteredIter, List.filterMap_cons, filteredItem, ih]
    by_cases hdel : isDeleted doc = true
    · simp [hdel]
    · rw [if_neg (by simp [hdel]), if_neg hdel]
      cases matchesFilter doc filter with
      | error err => rfl
      | ok found =>
        cases found with
        | true => rfl
        | false => rfl

/-- What the cursor makes of one filtered item when nothing is skipped and nothing cut off. -/
def streamedItem (filter : Document) (projection : Option Document) :
    Except RangoError Document → Option (Except RangoError Document)
  | .error err => some (.error err)
  | .ok doc =>
    if (matchesFilter doc filter).toOption.getD false = false then none
    else some (.ok (projected projection doc))

lemma streamed_eq (filter : Document) (projection : Option Document) (emitted : ℕ)
    (items : List (Except RangoError Document)) :
    streamed filter projection 0 none 0 emitted items =
      items.filterMap (streamedItem filter projection) := by
  induction items generalizing emitted with
  | nil => rfl
  | cons item rest ih =>
    rw [List.filterMap_cons]
    cases item with
    | error err =>
      rw [streamed, if_neg (by simp), ih]
      rfl
    | ok doc =>
      rw [streamed, if_neg (by simp), streamedItem]
      split_ifs with hno
      · exact ih emitted
      · omega
      · rw [ih]

end

/-- A sort in which only equal documents tie does not depend on the order it starts from. -/
lemma sortBy_eq_of_perm [SliceSort] {cmp : Document → Document → Ordering} {l l' : List Document}
    (hperm : l.Perm l') (hcons : Consistent cmp l)
    (hties : ∀ a ∈ l, ∀ b ∈ l, cmp a b = .eq → a = b) :
    SliceSort.sortBy cmp l' = SliceSort.sortBy cmp l := by
  obtain ⟨r, hr, hsorted⟩ := SliceSort.sorts hcons
  obtain ⟨r', hr', hsorted'⟩ := SliceSort.sorts (hcons.mono hperm.symm.subset)
  have heq : r' = r := by
    refine List.Perm.eq_of_pairwise ?_ hsorted'.sorted hsorted.sorted
      (hsorted'.perm.trans (hperm.symm.trans hsorted.perm.symm))
    intro a b ha hb hab hba
    have ha' : a ∈ l := hperm.mem_iff.mpr (hsorted'.perm.mem_iff.mp ha)
    have hb' : b ∈ l := hsorted.perm.mem_iff.mp hb
    exact hties a ha' b hb' (hcons.antisymm ha' hb' hab hba)
  rw [hr, hr', heq]

/-! ## Requests -/

section
variable [BsonTraits] {D : DocMap}

/-- The selected documents of the collection can be sorted by the field in one way only: none has
a NaN there, and two that tie are equal. -/
structure SortsOneWay (D : DocMap) (c : CollectionName) (filter : Document) (field : String)
    (desc : Bool) : Prop where
  no_nan : ∀ k d, D c k = some d → selects filter d = true →
    ∀ x, d.get field = some (.double x) → x.isNaN = false
  ties : ∀ k d k' d', D c k = some d → selects filter d = true → D c k' = some d' →
    selects filter d' = true → sortOrder field desc d d' = .eq → d = d'

/-- The documents determine what the request answers, up to the order of a listing: a page of a
query is determined by a sort with one outcome, a listing of conflicts when no ids are drawn. -/
def EngineRequest.Determined (D : DocMap) : EngineRequest → Prop
  | .listConflicts c _ => ∀ k d, D c k = some d → (d.get "_id").isSome
  | .find c filter _ (some (field, desc)) _ _ => SortsOneWay D c filter field desc
  | .find _ _ _ none skip limit => skip = none ∧ limit = none
  | _ => True

/-- Two answers to a request are the same, those that list a collection in the order of a scan as
multisets. -/
def EngineRequest.Same : EngineRequest → EngineAnswer → EngineAnswer → Prop
  | .createSnapshot .., .snapshot (.ok s), .snapshot (.ok s') =>
    s.state.Perm s'.state ∧ s' = { s with state := s'.state }
  | .listConflicts .., .conflicts (.ok l), .conflicts (.ok l') => l.Perm l'
  | .find _ _ _ none _ _, .cursor (.ok l), .cursor (.ok l') => l.Perm l'
  | _, a, b => a = b

/-- What the request looks at is the same in both maps, and what it leaves of them is related. -/
def EngineRequest.Alike [Formatting] (R : DocMap → DocMap → Prop) (D D' : DocMap) :
    EngineRequest → Prop
  | .deleteOne c id _ => D' c id.toString = D c id.toString
  | .resolveConflict c id _ => D' c id.toString = D c id.toString
  | .createSnapshot c _ _ _ _ => D' c = D c
  | .restoreFromSnapshot c _ _ => R (D.emptied c fun _ => true) (D'.emptied c fun _ => true)
  | .rollbackToSnapshot c _ _ _ _ => R (D.emptied c fun _ => true) (D'.emptied c fun _ => true)
  | .gcDeleted c => D' c = D c ∧ R (D.emptied c isDeleted) (D'.emptied c isDeleted)
  | _ => True

end

namespace RangoEngine

variable {σ τ ω : Type} {R : DocMap → DocMap → Prop} {holds : σ → DocMap → Prop}
  {holds' : τ → DocMap → Prop} [Formatting] [StorageEngine σ] [StorageEngine τ] [BsonTraits]
  [SliceSort]

section Calls
variable {S : Set CollectionName} (hR : UpToTombstones R) (h : MapOn S holds)
  (h' : MapOn S holds') {c : CollectionName} {D D' : DocMap} {e : RangoEngine σ ω}
  {g : RangoEngine τ ω}
include hR h h'

omit [BsonTraits] [SliceSort] in
lemma Agree.listConflicts (ha : Agree R holds holds' D D' e g) (hc : c ∈ S)
    (draw : ℕ → List UInt8) :
    (∃ D D', Agree R holds holds' D D' (e.listConflicts c draw).2 (g.listConflicts c draw).2) ∧
      ((∀ k d, D c k = some d → (d.get "_id").isSome) → ∃ l l' : List (DocumentId × List Document),
        l.Perm l' ∧ (e.listConflicts c draw).1 = .ok l ∧ (g.listConflicts c draw).1 = .ok l') := by
  obtain ⟨docs, docs', e₁, g₁, hscan, hscan', hl, hl', ha₁⟩ := ha.storageScan h h' hc
  unfold RangoEngine.listConflicts
  rw [hscan, hscan']
  refine ⟨⟨D, D', ha₁⟩, fun hids => ?_⟩
  have hswept := hR.swept ha.related
  have hall : ∀ d ∈ docs.map Prod.snd, (d.get "_id").isSome := by
    intro d hd
    obtain ⟨⟨k, d⟩, hmem, rfl⟩ := List.mem_map.mp hd
    exact hids k d ((hl.mem k d).mp hmem)
  have hall' : ∀ d ∈ docs'.map Prod.snd, (d.get "_id").isSome := by
    intro d hd
    obtain ⟨⟨k, d⟩, hmem, rfl⟩ := List.mem_map.mp hd
    exact hids k d (hswept.of_some ((hl'.mem k d).mp hmem))
  have hloop := listConflictsLoop_eq draw 0 hall []
  have hloop' := listConflictsLoop_eq draw 0 hall' []
  rw [List.map_map] at hloop hloop'
  refine ⟨_, _, ?_, hloop, hloop'⟩
  exact filterMap_perm_of_visible conflictEntry_of_deleted (hl.visible_perm hl' hswept)

lemma Agree.find (ha : Agree R holds holds' D D' e g) (hc : c ∈ S) (filter : Document)
    (projection : Option Document) (sort : Option (String × Bool)) (skip limit : Option ℕ) :
    (∃ D D', Agree R holds holds' D D' (e.find c filter projection sort skip limit).2
      (g.find c filter projection sort skip limit).2) ∧
    (sort = none → skip = none → limit = none → ∃ l l' : List (Except RangoError Document),
      l.Perm l' ∧ (e.find c filter projection sort skip limit).1 = .ok l ∧
        (g.find c filter projection sort skip limit).1 = .ok l') ∧
    (∀ field desc, sort = some (field, desc) → SortsOneWay D c filter field desc →
      (g.find c filter projection sort skip limit).1 =
        (e.find c filter projection sort skip limit).1) := by
  obtain ⟨docs, docs', e₁, g₁, hscan, hscan', hl, hl', ha₁⟩ := ha.storageScan h h' hc
  have hvisible := hl.visible_perm hl' (hR.swept ha.related)
  have hdocs : ∀ l : List (String × Document), (l.map fun x => Except.ok x.2) =
      ((l.map Prod.snd).map .ok : List (Except RangoError Document)) := by
    intro l
    rw [List.map_map]
    rfl
  refine ⟨?_, ?_, ?_⟩
  · unfold RangoEngine.find
    rw [hscan, hscan']
    refine ⟨D, D', ?_⟩
    cases sort with
    | none => exact ha₁
    | some key =>
      dsimp only
      split <;> split <;> exact ha₁
  · rintro rfl rfl rfl
    refine ⟨_, _, ?_, find_streamed (congrArg Prod.fst hscan),
      find_streamed (congrArg Prod.fst hscan')⟩
    rw [hdocs, hdocs, filteredIter_eq, filteredIter_eq]
    show (streamed filter projection 0 none 0 0 _).Perm (streamed filter projection 0 none 0 0 _)
    rw [streamed_eq, streamed_eq]
    exact (filterMap_perm_of_visible (filteredItem_of_deleted filter) hvisible).filterMap _
  · rintro field desc rfl hone
    rw [find_sorted (congrArg Prod.fst hscan'), find_sorted (congrArg Prod.fst hscan), hdocs,
      hdocs, filterMap_filteredIter, filterMap_filteredIter]
    have hselected := filter_perm_of_visible (selects_of_deleted filter) hvisible
    have hmem : ∀ d ∈ (docs.map Prod.snd).filter (selects filter),
        ∃ k, D c k = some d ∧ selects filter d = true := by
      intro d hd
      obtain ⟨hin, hselects⟩ := List.mem_filter.mp hd
      obtain ⟨⟨k, d⟩, hentry, rfl⟩ := List.mem_map.mp hin
      exact ⟨k, (hl.mem k d).mp hentry, hselects⟩
    have hcons :
        Consistent (sortOrder field desc) ((docs.map Prod.snd).filter (selects filter)) := by
      refine sortOrder_consistent desc (steady_of_no_nan fun d hd => ?_)
      obtain ⟨k, hk, hselects⟩ := hmem d hd
      exact hone.no_nan k d hk hselects
    rw [sortBy_eq_of_perm hselected hcons]
    intro a ha b hb hab
    obtain ⟨k, hk, hka⟩ := hmem a ha
    obtain ⟨k', hk', hkb⟩ := hmem b hb
    exact hone.ties k a k' b hk hka hk' hkb hab

variable [Oplog ω] [BsonCodec] [MutationHasher] [Arithmetic]

/-- **One request.** When it looks at nothing that the documents differ in, it leaves engines that
agree, and answers alike when the documents determine the answer. -/
theorem Agree.serve (ha : Agree R holds holds' D D' e g) {x : EngineRequest}
    (hx : ∀ c ∈ x.names, c ∈ S) (hsame : x.Alike R D D') :
    (∃ D D', Agree R holds holds' D D' (e.afterRequest x) (g.afterRequest x)) ∧
      (x.Determined D → x.Same (e.serve x).1 (g.serve x).1) := by
  cases x with
  | insertOne c doc t =>
    obtain ⟨hanswer, hleft⟩ := ha.insertOne hR h h' (hx c (by simp [EngineRequest.names])) doc t
    exact ⟨hleft, fun _ => congrArg EngineAnswer.id hanswer.symm⟩
  | updateOne c id update t =>
    obtain ⟨hanswer, hleft⟩ :=
      ha.updateOne hR h h' (hx c (by simp [EngineRequest.names])) id update t
    exact ⟨hleft, fun _ => congrArg EngineAnswer.changed hanswer.symm⟩
  | deleteOne c id t =>
    obtain ⟨hanswer, hleft⟩ :=
      ha.deleteOne hR h h' (hx c (by simp [EngineRequest.names])) id hsame t
    exact ⟨hleft, fun _ => congrArg EngineAnswer.deleted hanswer.symm⟩
  | applyRemoteMutation c doc =>
    obtain ⟨hanswer, hleft⟩ :=
      ha.applyRemoteMutation hR h h' (hx c (by simp [EngineRequest.names])) doc
    exact ⟨hleft, fun _ => congrArg EngineAnswer.done hanswer.symm⟩
  | applyMutationsDeterministic default ms =>
    obtain ⟨hanswer, hleft⟩ := ha.applyMutationsDeterministic hR h h' default ms
      fun m hm => hx _ (List.mem_map_of_mem hm)
    exact ⟨hleft, fun _ => congrArg EngineAnswer.count hanswer.symm⟩
  | createSnapshot c tenantId snapshotId baseSeq now =>
    obtain ⟨state, state', e₁, g₁, hperm, hcall, hcall', ha₁⟩ := ha.createSnapshot h h'
      (hx c (by simp [EngineRequest.names])) hsame tenantId snapshotId baseSeq now
    simp only [afterRequest, RangoEngine.serve, answered, hcall, hcall']
    exact ⟨⟨D, D', ha₁⟩, fun _ => ⟨hperm, rfl⟩⟩
  | restoreFromSnapshot c snapshot replay =>
    obtain ⟨hanswer, hleft⟩ := ha.restoreFromSnapshot hR h h' (hx c List.mem_cons_self) hsame
      snapshot replay fun m hm => hx _ (List.mem_cons_of_mem _ (List.mem_map_of_mem hm))
    exact ⟨hleft, fun _ => congrArg EngineAnswer.count hanswer.symm⟩
  | rollbackToSnapshot c snapshot rollback window now =>
    obtain ⟨hanswer, hleft⟩ := ha.rollbackToSnapshot hR h h' (hx c List.mem_cons_self) hsame
      snapshot rollback window
      (fun m hm => hx _ (List.mem_cons_of_mem _ (List.mem_map_of_mem hm))) now
    exact ⟨hleft, fun _ => congrArg EngineAnswer.rolledBack hanswer.symm⟩
  | gcDeleted c =>
    obtain ⟨hanswer, hleft⟩ := ha.gcDeleted h h' (hx c (by simp [EngineRequest.names]))
      hsame.1 hsame.2
    exact ⟨hleft, fun _ => congrArg EngineAnswer.count hanswer.symm⟩
  | listConflicts c draw =>
    obtain ⟨hleft, hlist⟩ := ha.listConflicts hR h h' (hx c (by simp [EngineRequest.names])) draw
    refine ⟨hleft, fun hdet => ?_⟩
    obtain ⟨l, l', hperm, hl, hl'⟩ := hlist hdet
    simp only [RangoEngine.serve, answered, hl, hl']
    exact hperm
  | resolveConflict c id chosenRev =>
    obtain ⟨hanswer, hleft⟩ :=
      ha.resolveConflict hR h h' (hx c (by simp [EngineRequest.names])) id hsame chosenRev
    exact ⟨hleft, fun _ => congrArg EngineAnswer.done hanswer.symm⟩
  | findOne c id =>
    obtain ⟨e₁, g₁, hget, hget', ha₁⟩ :=
      ha.storageGet h h' (hx c (by simp [EngineRequest.names])) id
    simp only [afterRequest, RangoEngine.serve, findOne, hget, hget']
    refine ⟨⟨D, D', ha₁⟩, fun _ => ?_⟩
    show EngineAnswer.found _ = EngineAnswer.found _
    rw [(hR.swept ha.related).visible]
  | find c filter projection sort skip limit =>
    obtain ⟨hleft, hstream, hsort⟩ := ha.find hR h h' (hx c (by simp [EngineRequest.names])) filter
      projection sort skip limit
    refine ⟨hleft, fun hdet => ?_⟩
    cases sort with
    | none =>
      obtain ⟨l, l', hperm, hl, hl'⟩ := hstream rfl hdet.1 hdet.2
      simp only [RangoEngine.serve, answered, hl, hl']
      exact hperm
    | some key => exact congrArg EngineAnswer.cursor (hsort key.1 key.2 rfl hdet).symm

end Calls
end RangoEngine
end Rango
