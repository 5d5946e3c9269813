import Rango.Core.ArrivalTheorems

/-!
# A batch applied again after a restart

The write ids that an engine has applied are kept in memory. An engine that is opened on the same
storage knows none of them, so it applies a batch again that its predecessor has applied, and only
the revisions that the documents carry stand in the way. `reopened_replay_settled` says when that
leaves every stored document as it was.
-/

namespace Rango

section
variable [Formatting]

/-! ## One place -/

/-- The deleted document `l`, which the arrivals `first` left of what was there `before`, owes
nothing to that: nothing live was there, or the very document that arrives first, or `l` is the
document that arrived last and found nothing live to record. -/
inductive Renewed (nodeId : String) (before : Option Document) (first : List Mutation)
    (l : Document) : Prop where
  | gone : (∀ d ∈ before, isDeleted d = true) → Renewed nodeId before first l
  | alike (m : Mutation) (rest : List Mutation) : first = m :: rest →
      before = some (RangoEngine.mutationDocument nodeId m) → Renewed nodeId before first l
  | unrecorded (pre : List Mutation) (m : Mutation) : first = pre ++ [m] →
      RangoEngine.mutationDocument nodeId m = l →
      (∀ b, conflictRecord l ≠ some (List.replicate 10 b)) → Renewed nodeId before first l

/-- The document `l`, which the arrivals `first` left of what was there `before`, is settled
against the arrivals `again`: they leave it alone; or they are the same arrivals, and `l` is live
and some of them are newer, or `l` is deleted and owes nothing to what was there. -/
inductive Settled (nodeId : String) (before : Option Document) (first again : List Mutation)
    (l : Document) : Prop where
  | stands : LeftAlone nodeId (some l) again → Settled nodeId before first again l
  | outlived : again = first → isDeleted l = false → (∃ m ∈ again, Newer nodeId l m) →
      Settled nodeId before first again l
  | renewed : again = first → isDeleted l = true → Renewed nodeId before first l →
      Settled nodeId before first again l

/-- Nothing can leave `l` as it is but that it is settled. -/
def Decided (nodeId : String) (before : Option Document) (first again : List Mutation)
    (l : Document) : Prop :=
  Unsurpassed nodeId (some l) again ∨ (∀ m ∈ again, ¬ Deletes nodeId m) ∨
    (again = first ∧ (isDeleted l = false ∨ ∀ d ∈ before, isDeleted d = true))

/-- Arrivals that found nothing live to record before they left a deleted document find nothing
when they start anew. -/
lemma foldl_arrive_of_unrecorded {nodeId : String} {before : Option Document}
    {pre : List Mutation} {m : Mutation} {l : Document} (hdel : isDeleted l = true)
    (hm : RangoEngine.mutationDocument nodeId m = l)
    (hrecord : ∀ b, conflictRecord l ≠ some (List.replicate 10 b))
    (h : (pre ++ [m]).foldl (arrive nodeId) before = some l) :
    (pre ++ [m]).foldl (arrive nodeId) none = some l := by
  rw [List.foldl_append, List.foldl_cons, List.foldl_nil] at h ⊢
  rcases deleted_or_live (pre.foldl (arrive nodeId) none) with hgone | ⟨v, hv, hvlive⟩
  · rw [arrive_of_deleted nodeId hgone, hm]
  have hpre : pre ≠ [] := by
    rintro rfl
    cases hv
  obtain ⟨u, hu⟩ := Option.isSome_iff_exists.mp (foldl_arrive_isSome nodeId before hpre)
  rw [hu, arrive, hm, Option.some.injEq] at h
  rw [hv, arrive, hm, Option.some.injEq]
  rw [foldl_arrive_eq] at hu hv
  have htrails : Archive.Trails version v u := Archive.replay_trails resolve_merges hu hv
  have hulive : isDeleted u = false := by
    by_contra hdead
    have hgone := htrails.dead (body_version_eq_none.mpr (by simpa using hdead))
    rw [body_version_eq_none.mp hgone] at hvlive
    cases hvlive
  rw [resolve, hulive, if_neg Bool.false_ne_true] at h
  cases hcmp : (docRevision l).cmp (docRevision u) with
  | gt =>
    -- it took in what was there before, and that is not seen
    rw [hcmp] at h
    have hnone : conflictRecord l = none := by
      by_contra hsome
      obtain ⟨arr, harr⟩ := Option.ne_none_iff_exists'.mp hsome
      have hfull := (addConflict_eq_self_iff u l).mp h arr harr
      rw [hfull] at harr
      exact hrecord _ harr
    have hnewer : (docRevision l).cmp (docRevision v) = .gt := by
      rw [Revision.cmp_eq_gt] at hcmp ⊢
      have hle : docStamp v ≤ docStamp u := htrails.le (body_version_ne_none.mpr hulive)
        (body_version_ne_none.mpr hvlive)
      exact hle.trans_lt hcmp
    rw [resolve, hvlive, if_neg Bool.false_ne_true, hnewer]
    exact addConflict_of_none hnone v
  | lt =>
    rw [hcmp] at h
    rw [← h, isDeleted_addConflict, hulive] at hdel
    cases hdel
  | eq =>
    rw [hcmp] at h
    rw [← h, hulive] at hdel
    cases hdel

/-- Arrivals leave a document as it is that is settled against them. -/
lemma Settled.foldl_arrive {nodeId : String} {before : Option Document}
    {first again : List Mutation} {l : Document} (h : Settled nodeId before first again l)
    (hfirst : first.foldl (arrive nodeId) before = some l) :
    again.foldl (arrive nodeId) (some l) = some l := by
  cases h with
  | stands halone => exact halone.foldl_arrive
  | outlived hsame hlive hnewer =>
    obtain ⟨x, hx, hxl⟩ := hnewer
    rw [foldl_arrive_eq] at hfirst ⊢
    rw [← hsame] at hfirst
    refine Archive.replay_again_of_newer resolve_merges (body_version_ne_none.mpr hlive) rfl
      hfirst ?_
    exact ⟨_, List.mem_map_of_mem hx, Revision.cmp_eq_gt.mp hxl⟩
  | renewed hsame hdel hrenewed =>
    rw [hsame]
    have hgone := deleted_of_some hdel
    by_cases hnil : first = []
    · rw [hnil]
      rfl
    cases hrenewed with
    | gone hbefore => rw [foldl_arrive_of_deleted hgone hbefore hnil, hfirst]
    | alike m rest hsplit hbefore =>
      rw [hsplit, List.foldl_cons] at hfirst ⊢
      rw [arrive_of_deleted nodeId hgone]
      rw [hbefore, arrive, RangoEngine.resolve_self] at hfirst
      exact hfirst
    | unrecorded pre m hsplit hm hrecord =>
      rw [foldl_arrive_of_deleted hgone (fun d hd => absurd hd (Option.not_mem_none d)) hnil]
      rw [hsplit] at hfirst ⊢
      exact foldl_arrive_of_unrecorded hdel hm hrecord hfirst

/-- Where nothing else can leave it as it is, a document that is left so is settled. -/
lemma settled_of_foldl_arrive {nodeId : String} {before : Option Document}
    {first again : List Mutation} {l : Document}
    (hdecided : Decided nodeId before first again l)
    (h : again.foldl (arrive nodeId) (some l) = some l) :
    Settled nodeId before first again l := by
  have hstands : Unsurpassed nodeId (some l) again ∨ (∀ m ∈ again, ¬ Deletes nodeId m) →
      Settled nodeId before first again l := fun hclear =>
    .stands ((foldl_arrive_self_iff hclear).mp h)
  rcases hdecided with hclear | hclear | ⟨hsame, hbefore⟩
  · exact hstands (Or.inl hclear)
  · exact hstands (Or.inr hclear)
  · cases hdel : isDeleted l with
    | false =>
      by_cases hnewer : ∃ m ∈ again, Newer nodeId l m
      · exact .outlived hsame hdel hnewer
      · push Not at hnewer
        exact hstands (Or.inl ⟨_, .live hdel hnewer⟩)
    | true =>
      have hgone : ∀ d ∈ before, isDeleted d = true := hbefore.resolve_left (by simp [hdel])
      exact .renewed hsame hdel (.gone hgone)

namespace RangoEngine

variable {σ ω ω' : Type} [MapStorage σ]

/-- What an engine that is opened on the storage makes of a batch. -/
def reopenAndApply (s : σ) (o : ω) (nodeId : String) (config : RangoConfig)
    (default : CollectionName) (ms : List Mutation) : σ :=
  ((openWithConfig s o nodeId config).applyMutationsDeterministic default ms).2.storage

lemma reopenAndApply_docs (s : σ) (o : ω) (nodeId : String) (config : RangoConfig)
    (default : CollectionName) (ms : List Mutation) (c : CollectionName) (k : String) :
    docMap (reopenAndApply s o nodeId config default ms) c k =
      (arrivals default ms (c, k)).foldl (arrive nodeId) (docMap s c k) := by
  obtain ⟨-, hfol⟩ :=
    applyMutationsDeterministic_eq (openWithConfig s o nodeId config) default ms
  rw [reopenAndApply, hfol.docs]
  exact foldl_deliver_apply default nodeId _ _ c k

/-- **Replay across a restart.** A batch is applied by an engine opened on any storage, and a batch
by another engine with the same node id that is opened on what the first leaves. The second leaves
every stored document unchanged when each place to which its batch brings something holds a
document that is settled against it. When it does, each such place holds a document, and one that
is settled where the arrivals decide it. -/
theorem reopened_replay_settled (s : σ) (o : ω) (o' : ω') (nodeId : String)
    (config config' : RangoConfig) (default : CollectionName) (ms ms' : List Mutation) :
    let s₁ := reopenAndApply s o nodeId config default ms
    ((∀ place : CollectionName × String, arrivals default ms' place ≠ [] →
        ∃ l, docMap s₁ place.1 place.2 = some l ∧ Settled nodeId (docMap s place.1 place.2)
          (arrivals default ms place) (arrivals default ms' place) l) →
      docMap (reopenAndApply s₁ o' nodeId config' default ms') = docMap s₁) ∧
    (docMap (reopenAndApply s₁ o' nodeId config' default ms') = docMap s₁ →
      ∀ place : CollectionName × String, arrivals default ms' place ≠ [] →
        ∃ l, docMap s₁ place.1 place.2 = some l ∧
          (Decided nodeId (docMap s place.1 place.2) (arrivals default ms place)
              (arrivals default ms' place) l →
            Settled nodeId (docMap s place.1 place.2) (arrivals default ms place)
              (arrivals default ms' place) l)) := by
  intro s₁
  constructor
  · intro h
    funext c k
    rw [reopenAndApply_docs]
    by_cases hnil : arrivals default ms' (c, k) = []
    · rw [hnil, List.foldl_nil]
    · obtain ⟨l, hl, hsettled⟩ := h (c, k) hnil
      have hfirst : docMap s₁ c k = some l := hl
      rw [hfirst]
      rw [reopenAndApply_docs] at hfirst
      exact hsettled.foldl_arrive hfirst
  · intro h place hne
    obtain ⟨c, k⟩ := place
    have hplace : (arrivals default ms' (c, k)).foldl (arrive nodeId) (docMap s₁ c k) =
        docMap s₁ c k := by
      rw [← reopenAndApply_docs s₁ o' nodeId config' default ms', h]
    obtain ⟨l, hl⟩ := Option.isSome_iff_exists.mp (foldl_arrive_isSome nodeId (docMap s₁ c k) hne)
    have hheld : docMap s₁ c k = some l := hplace.symm.trans hl
    refine ⟨l, hheld, fun hdecided => settled_of_foldl_arrive hdecided ?_⟩
    rw [← hheld]
    exact hplace

end RangoEngine
end

section
attribute [local instance] Formatting.sample

/-- An insert of another document. -/
def sampleBeside : Mutation :=
  .sample "c" "tenant" "e" .insert
    (some ⟨[("_id", .string "e"), ("_rev", .string "1-0-bbbb")]⟩) 3 "1-0-bbbb" "w3"

/-- The storage after a new node applied the insert and the delete of one document and the insert
of another. -/
def sampleSettled : MemoryStorage :=
  RangoEngine.reopenAndApply MemoryStorage.new (NullOplog.mk 0) "a" .default ⟨"c"⟩
    [sampleInsert, sampleDelete, sampleBeside]

/-- A node that opens it and applies the batch in another order changes nothing: the deleted
document starts anew, and for the live one nothing comes that is newer or older. -/
theorem RangoEngine.reopened_replay_settled_deleted :
    docMap (reopenAndApply sampleSettled (NullOplog.mk 0) "a" .default ⟨"c"⟩
      [sampleBeside, sampleDelete, sampleInsert]) = docMap sampleSettled := by
  apply (reopened_replay_settled MemoryStorage.new (NullOplog.mk 0) (NullOplog.mk 0) "a" .default
    .default ⟨"c"⟩ [sampleInsert, sampleDelete, sampleBeside]
    [sampleBeside, sampleDelete, sampleInsert]).1
  intro place hne
  obtain ⟨m, hm⟩ := List.exists_mem_of_ne_nil _ hne
  obtain ⟨hkept, hplace⟩ := List.mem_filter.mp hm
  have hmem : m = sampleBeside ∨ m = sampleDelete ∨ m = sampleInsert := by
    simpa using (List.mem_insertionSort _).mp (mem_of_mem_plan_kept hkept)
  have htwo : place = (⟨"c"⟩, "\"e\"") ∨ place = (⟨"c"⟩, "\"d\"") := by
    have hfiled := of_decide_eq_true hplace
    rcases hmem with rfl | rfl | rfl
    · exact Or.inl (Option.some.inj (hfiled.symm.trans (by decide)))
    · exact Or.inr (Option.some.inj (hfiled.symm.trans (by decide)))
    · exact Or.inr (Option.some.inj (hfiled.symm.trans (by decide)))
  rcases htwo with rfl | rfl
  · refine ⟨mutationDocument "a" sampleBeside, by decide +kernel, .stands ?_⟩
    exact .live (by decide) (by decide +kernel) (Or.inl (by decide +kernel))
  · refine ⟨addConflict (mutationDocument "a" sampleInsert) (mutationDocument "a" sampleDelete),
      by decide +kernel, .renewed (by decide +kernel) (by decide +kernel) (.gone ?_)⟩
    have hempty : docMap MemoryStorage.new ⟨"c"⟩ "\"d\"" = none := by decide +kernel
    intro d hd
    rw [hempty] at hd
    cases hd

/-- A later version of the document of `sampleInsert`. -/
def sampleUpdate : Mutation :=
  .sample "c" "tenant" "d" .update
    (some ⟨[("_id", .string "d"), ("_rev", .string "2-0-aaaa")]⟩) 2 "2-0-aaaa" "w2"

/-- The storage after a new node applied the insert and the update, and after another node opened
it and applied them in the other order. -/
def sampleApplied : MemoryStorage :=
  RangoEngine.reopenAndApply MemoryStorage.new (NullOplog.mk 0) "a" .default ⟨"c"⟩
    [sampleInsert, sampleUpdate]

def sampleReapplied : MemoryStorage :=
  RangoEngine.reopenAndApply sampleApplied (NullOplog.mk 0) "a" .default ⟨"c"⟩
    [sampleUpdate, sampleInsert]

/-- The document with the first version so many times among its conflicts. -/
def sampleConflicted (n : ℕ) : Document :=
  ⟨[("_id", .string "d"), ("_rev", .string "2-0-aaaa"),
    ("_conflicts", .array (List.replicate n
      (.document [("_id", .string "d"), ("_rev", .string "1-0-aaaa")])))]⟩

/-- An insert and an update of it, applied before and after a restart: the second time the insert
is taken for a loser that is not on record yet. -/
theorem reopened_replay_records_again :
    [sampleInsert, sampleUpdate].Perm [sampleUpdate, sampleInsert] ∧
      (∀ m ∈ [sampleInsert, sampleUpdate],
        m.validateMetadata = .ok () ∧ m.writeId ≠ "" ∧ m.target.isSome) ∧
      docMap sampleApplied ⟨"c"⟩ "\"d\"" = some (sampleConflicted 1) ∧
      docMap sampleReapplied ⟨"c"⟩ "\"d\"" = some (sampleConflicted 2) := by
  refine ⟨List.Perm.swap _ _ _, by decide, ?_, ?_⟩
  · decide +kernel
  · decide +kernel

end
end Rango
