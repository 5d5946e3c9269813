import Rango.Core.FilingTheorems
import Rango.Core.RollbackTheorems

/-!
# What replayed mutations touch

A mutation names a collection and a `doc_id`. The engine sorts by the `doc_id`, but a patch is
stored where its own `_id` says, in the collection that the mutation names: nothing compares the
two, and a restore replays into whatever collections its mutations name.
`batch_changesOnly_iff` says which places a batch can touch; from it follow when it touches the
named documents alone (`batch_frame_iff`) and when a restore spares the other collections
(`restore_frame_iff`).
-/

namespace Rango

/-! ## Changes within places -/

/-- The documents differ at these places at most. -/
def ChangesOnly (places : Set (CollectionName × String)) (D D' : DocMap) : Prop :=
  ∀ c k, (c, k) ∉ places → D' c k = D c k

namespace ChangesOnly

variable {places : Set (CollectionName × String)} {D D' : DocMap}

lemma refl (places : Set (CollectionName × String)) (D : DocMap) : ChangesOnly places D D :=
  fun _ _ _ => rfl

lemma trans {D'' : DocMap} (h : ChangesOnly places D D') (h' : ChangesOnly places D' D'') :
    ChangesOnly places D D'' := fun c k hout => (h' c k hout).trans (h c k hout)

lemma set (h : ChangesOnly places D D') {c : CollectionName} {k : String}
    (hplace : (c, k) ∈ places) (found : Option Document) :
    ChangesOnly places D (D'.set c k found) := by
  intro c' k' hout
  rw [DocMap.set_of_ne, h c' k' hout]
  rintro ⟨rfl, rfl⟩
  exact hout hplace

lemma settle (h : ChangesOnly places D D') {D'' : DocMap} (h' : ChangesOnly places D D'')
    {α : Type} (r : Except RangoError α) : ChangesOnly places D (settle r D' D'') := by
  cases r with
  | error err => exact h
  | ok _ => exact h'

end ChangesOnly

section
variable [Formatting] {default : CollectionName} {places : Set (CollectionName × String)}

/-- The documents of the mutations go to these places. -/
def FiledWithin (default : CollectionName) (places : Set (CollectionName × String))
    (ms : List Mutation) : Prop := ∀ m ∈ ms, ∀ place ∈ m.filedAt default, place ∈ places

lemma FiledWithin.foldl_deliver {ms : List Mutation} (h : FiledWithin default places ms)
    (nodeId : String) (D : DocMap) :
    ChangesOnly places D (ms.foldl (deliver default nodeId) D) :=
  fun _ _ hout => foldl_deliver_of_ne (fun m hm hfiled => hout (h m hm _ hfiled)) nodeId D

/-- A place where something is delivered is not empty afterwards. -/
lemma foldl_deliver_ne_none {ms : List Mutation} {m : Mutation} {c : CollectionName} {k : String}
    (hm : m ∈ ms) (hfiled : m.filedAt default = some (c, k)) (nodeId : String) (D : DocMap) :
    ms.foldl (deliver default nodeId) D c k ≠ none := by
  have hkeeps : ∀ (D : DocMap) (x : Mutation), D c k ≠ none →
      deliver default nodeId D x c k ≠ none := by
    intro D x hD
    by_cases hx : x.filedAt default = some (c, k)
    · obtain ⟨k', hk', hplace⟩ := Option.map_eq_some_iff.mp hx
      obtain ⟨rfl, rfl⟩ := Prod.mk.inj hplace
      simp [deliver, hk', DocMap.set_self]
    · rwa [deliver_of_ne hx]
  obtain ⟨pre, post, rfl⟩ := List.append_of_mem hm
  rw [List.foldl_append, List.foldl_cons]
  -- `m` fills the place, and what comes after it does not empty it again
  refine List.foldlRecOn post (motive := fun D => D c k ≠ none) _ ?_ fun D hD x _ => hkeeps D x hD
  obtain ⟨k', hk', hplace⟩ := Option.map_eq_some_iff.mp hfiled
  obtain ⟨rfl, rfl⟩ := Prod.mk.inj hplace
  simp [deliver, hk', DocMap.set_self]

/-- A mutation that is applied goes somewhere. -/
lemma filedAt_of_mem_kept (default : CollectionName) {ids : List String} {ms : List Mutation}
    {m : Mutation} (h : m ∈ (plan ids ms).kept) :
    ∃ k, m.filedAt default = some (RangoEngine.mutationCollection default m, k) := by
  induction ms generalizing ids with
  | nil => cases h
  | cons x rest ih =>
    cases planTurn ids x with
    | stops hnot hids hplan =>
      rw [hplan] at h
      cases h
    | skips hval hdup hplan =>
      rw [hplan] at h
      exact ih h
    | keeps happ hnew hplan =>
      rw [hplan] at h
      rcases List.mem_cons.mp h with rfl | h
      · obtain ⟨b, hb⟩ := Option.isSome_iff_exists.mp happ.2
        refine ⟨(DocumentId.fromBson b).toString, ?_⟩
        rw [Mutation.filedAt, Mutation.targetKey, hb]
        rfl
      · exact ih h

namespace RangoEngine

section
variable {σ ω : Type} [FallibleStorage σ]

/-! ## Batches -/

/-- A batch changes the places that the mutations it applies go to, at most; it may fail before it
has applied them all. -/
lemma applyMutationsDeterministic_changesOnly (e : RangoEngine σ ω) {ms : List Mutation}
    (h : FiledWithin default places
      (plan e.appliedWriteIds (ms.insertionSort CanonicalLe)).kept) :
    ChangesOnly places (stored e.storage)
      (stored (e.applyMutationsDeterministic default ms).2.storage) := by
  rcases applyMutationsDeterministic_cases e default ms with
    ⟨-, hleft⟩ | ⟨err, pre, m, post, hsorted, -, hint, -⟩
  · rw [hleft.docs]
    exact h.foldl_deliver e.nodeId _
  · -- a batch that fails has applied the first part of its plan
    rw [hint.left.docs]
    refine FiledWithin.foldl_deliver (fun x hx => h x ?_) e.nodeId _
    rw [hsorted, plan_append _ _ _ hint.passed]
    exact List.mem_append_left _ hx

end

/-- **Where a batch reaches.** On every engine with these write ids recorded, whatever it stores
and whatever fails, a batch changes no documents outside these places, exactly when the
mutations that it applies go there. -/
theorem batch_changesOnly_iff (ids : List String) (default : CollectionName)
    (places : Set (CollectionName × String)) (ms : List Mutation) :
    (∀ (σ ω : Type) [FallibleStorage σ] (e : RangoEngine σ ω), e.appliedWriteIds = ids →
      ChangesOnly places (stored e.storage)
        (stored (e.applyMutationsDeterministic default ms).2.storage)) ↔
    FiledWithin default places (plan ids (ms.insertionSort CanonicalLe)).kept := by
  constructor
  · rintro h m hm ⟨c, k⟩ hplace
    by_contra hout
    -- the place is empty on a new engine, and is not after the batch
    set e : RangoEngine MemoryStorage Unit := ⟨MemoryStorage.new, (), "", .default, ids, 0⟩ with he
    have hsame : docMap (e.applyMutationsDeterministic default ms).2.storage c k =
        docMap e.storage c k := h MemoryStorage Unit e rfl c k hout
    rw [(applyMutationsDeterministic_eq e default ms).2.docs] at hsame
    exact foldl_deliver_ne_none hm hplace _ _ hsame
  · rintro h σ ω _ e rfl
    exact applyMutationsDeterministic_changesOnly e h

/-- **The documents a batch names.** On every engine with these write ids recorded, a batch
changes no stored document but those that its mutations name, exactly when each mutation that it
applies carries the `_id` of a document that some mutation of the batch names in the same
collection. -/
theorem batch_frame_iff (ids : List String) (default : CollectionName) (ms : List Mutation) :
    (∀ (σ ω : Type) [FallibleStorage σ] (e : RangoEngine σ ω), e.appliedWriteIds = ids →
      ∀ c k, (∀ m ∈ ms, m.place default ≠ (c, k)) →
        stored (e.applyMutationsDeterministic default ms).2.storage c k = stored e.storage c k) ↔
    ∀ m ∈ (plan ids (ms.insertionSort CanonicalLe)).kept,
      ∃ m' ∈ ms, m.filedAt default = some (m'.place default) := by
  have hiff := batch_changesOnly_iff ids default { place | ∃ m ∈ ms, m.place default = place } ms
  constructor
  · intro h m hm
    obtain ⟨k, hk⟩ := filedAt_of_mem_kept default hm
    have hwithin := hiff.mp fun σ ω _ e he c k hout => h σ ω e he c k fun m hm hplace =>
      hout ⟨m, hm, hplace⟩
    obtain ⟨m', hm', hplace⟩ := hwithin m hm _ hk
    exact ⟨m', hm', by rw [hk, hplace]⟩
  · intro h σ ω _ e he c k hnone
    refine hiff.mpr (fun m hm place hplace => ?_) σ ω e he c k ?_
    · obtain ⟨m', hm', hfiled⟩ := h m hm
      exact ⟨m', hm', Option.some.inj (hfiled.symm.trans hplace)⟩
    · rintro ⟨m, hm, hplace⟩
      exact hnone m hm hplace

/-! ## Restores -/

section
variable {σ ω : Type} [FallibleStorage σ] {c : CollectionName}

/-- A restore changes the collection and what its replay touches. -/
lemma restoreFromSnapshot_changesOnly (e : RangoEngine σ ω) (hc : ∀ k, (c, k) ∈ places)
    {replay : List Mutation} (h : FiledWithin c places
      (plan e.appliedWriteIds (replay.insertionSort CanonicalLe)).kept) (snapshot : SnapshotUnit) :
    ChangesOnly places (stored e.storage)
      (stored (e.restoreFromSnapshot c snapshot replay).2.storage) := by
  -- the wipe and the refill keep the write ids, which the replay is planned by
  refine restoreFromSnapshot_keeps (c := c)
    (P := fun e' => ChangesOnly places (stored e.storage) (stored e'.storage) ∧
      e'.appliedWriteIds = e.appliedWriteIds)
    (Q := fun e' => ChangesOnly places (stored e.storage) (stored e'.storage))
    (fun e' he => ?_) (fun e' id he => ?_) (fun e' id d _ he => ?_) (fun e' he => ?_)
    (fun _ he => he.1) ⟨.refl places _, rfl⟩ snapshot
  · refine ⟨?_, he.2⟩
    rw [show stored (e'.storageScan c).2.storage = stored e'.storage from
      (FallibleStorage.scan_spec c e'.storage).1]
    exact he.1
  · refine ⟨?_, he.2⟩
    rw [(storageDelete_holds c e' id).docs]
    exact he.1.settle (he.1.set (hc _) none) _
  · refine ⟨?_, he.2⟩
    rw [storagePut_stored]
    exact he.1.settle (he.1.set (hc _) (some d)) _
  · refine he.1.trans (applyMutationsDeterministic_changesOnly e' ?_)
    rw [he.2]
    exact h

end

/-- **The collection a restore is for.** On every engine with these write ids recorded, a restore
or a rollback of a collection changes no document of another one, whether it succeeds or fails,
exactly when it is refused or each mutation that it gets to replay goes to that collection. -/
theorem restore_frame_iff (ids : List String) (c : CollectionName) (snapshot : SnapshotUnit)
    (call : RestoreCall) :
    (∀ (σ ω : Type) [FallibleStorage σ] (e : RangoEngine σ ω), e.appliedWriteIds = ids →
      ∀ c', c' ≠ c → ∀ k,
        stored (e.restoreBy c snapshot call).2.storage c' k = stored e.storage c' k) ↔
    call.Refused c snapshot ∨
      ∀ m ∈ (plan ids (call.replay.insertionSort CanonicalLe)).kept,
        mutationCollection c m = c := by
  by_cases href : call.Refused c snapshot
  · refine iff_of_true (fun σ ω _ e _ c' _ k => ?_) (Or.inl href)
    rw [restoreBy_refused href]
  rw [or_iff_right href]
  constructor
  · intro h m hm
    by_contra hc
    obtain ⟨k, hk⟩ := filedAt_of_mem_kept c hm
    -- the other collection is empty on a new engine, and is not after the replay
    set e : RangoEngine MemoryStorage Unit := ⟨MemoryStorage.new, (), "", .default, ids, 0⟩ with he
    have hsame : docMap (e.restoreBy c snapshot call).2.storage (mutationCollection c m) k =
        docMap e.storage (mutationCollection c m) k := h MemoryStorage Unit e rfl _ hc k
    obtain ⟨hns, hcall⟩ := restoreBy_eq (e := e) href
    obtain ⟨docs, -, -, hdocs⟩ := restoreFromSnapshot_eq e c snapshot hns call.replay
    rw [hcall, hdocs] at hsame
    exact foldl_deliver_ne_none hm hk _ _ hsame
  · rintro h σ ω _ e rfl c' hc' k
    rw [(restoreBy_eq href).2]
    have hwithin : FiledWithin c { place | place.1 = c }
        (plan e.appliedWriteIds (call.replay.insertionSort CanonicalLe)).kept := by
      intro m hm place hplace
      obtain ⟨_, hk⟩ := filedAt_of_mem_kept c hm
      rw [← Option.some.inj (hk.symm.trans hplace)]
      exact h m hm
    exact restoreFromSnapshot_changesOnly e (fun _ => rfl) hwithin snapshot c' k hc'

end RangoEngine
end

/-! ## Worked examples -/

section
attribute [local instance] Formatting.sample

/-- An insert of document `"d"` whose patch carries the `_id` of document `"x"`. -/
def sampleStray : Mutation :=
  .sample "c" "tenant" "d" .insert
    (some ⟨[("_id", .string "x"), ("_rev", .string "1-0-aaaa")]⟩) 1 "1-0-aaaa" "w1"

/-- A batch of this valid mutation names document `"d"` and overwrites document `"x"`. -/
theorem patch_goes_astray :
    sampleStray.validateMetadata = .ok () ∧
      (sampleStocked.applyMutationsDeterministic ⟨"c"⟩ [sampleStray]).1 = .ok 1 ∧
      sampleStray.place ⟨"c"⟩ = (⟨"c"⟩, "\"d\"") ∧
      stored sampleStocked.storage ⟨"c"⟩ "\"x\"" = some ⟨[("_id", .string "x")]⟩ ∧
      stored (sampleStocked.applyMutationsDeterministic ⟨"c"⟩ [sampleStray]).2.storage ⟨"c"⟩
        "\"x\"" = sampleStray.patch.map (addConflict ⟨[("_id", .string "x")]⟩) := by
  refine ⟨?_, ?_, ?_, ?_, ?_⟩
  · decide +kernel
  · decide +kernel
  · decide +kernel
  · decide +kernel
  · decide +kernel

/-- An insert of document `"x"` into collection `"c"`. -/
def sampleOverwrite : Mutation :=
  .sample "c" "tenant" "x" .insert
    (some ⟨[("_id", .string "x"), ("_rev", .string "1-0-aaaa")]⟩) 1 "1-0-aaaa" "w1"

/-- A restore of the empty collection `"o"` with that mutation to replay overwrites the document
of collection `"c"`. -/
theorem restore_reaches_across :
    (sampleStocked.restoreFromSnapshot ⟨"o"⟩ (RangoEngine.emptySnapshot ⟨"o"⟩)
        [sampleOverwrite]).1 = .ok 1 ∧
      stored sampleStocked.storage ⟨"c"⟩ "\"x\"" = some ⟨[("_id", .string "x")]⟩ ∧
      stored (sampleStocked.restoreFromSnapshot ⟨"o"⟩ (RangoEngine.emptySnapshot ⟨"o"⟩)
        [sampleOverwrite]).2.storage ⟨"c"⟩ "\"x\"" =
          sampleOverwrite.patch.map (addConflict ⟨[("_id", .string "x")]⟩) := by
  refine ⟨?_, ?_, ?_⟩
  · decide +kernel
  · decide +kernel
  · decide +kernel

end
end Rango
