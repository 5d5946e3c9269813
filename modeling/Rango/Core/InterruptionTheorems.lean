import Rango.Core.ConvergenceTheorems

/-!
# Batches that storage interrupts

Over a backend that can fail, a pass over a batch ends as `plan` says, or storage stops it at
some mutation. The write id of that mutation is recorded already, so that a retry of the batch
skips it: `retry_after_failure` says when nothing is lost by this.
-/

namespace Rango
namespace RangoEngine

variable {σ ω : Type} [Formatting] [FallibleStorage σ]

/-- A call that returns has not been interrupted. -/
lemma applyMutationsDeterministic_ok {e : RangoEngine σ ω} {default : CollectionName}
    {ms : List Mutation} {n : ℕ} (h : (e.applyMutationsDeterministic default ms).1 = .ok n) :
    Left default e (e.applyMutationsDeterministic default ms).2
      (plan e.appliedWriteIds (ms.insertionSort CanonicalLe)).kept
      (plan e.appliedWriteIds (ms.insertionSort CanonicalLe)).ids := by
  rcases applyMutationsDeterministic_cases e default ms with ⟨-, hleft⟩ | ⟨err, -, -, -, -, herr, -⟩
  · exact hleft
  · rw [h] at herr
    cases herr

/-! ## Retrying the batch -/

omit [Formatting] [FallibleStorage σ] in
/-- What a second pass over the batch applies: of the mutations up to the failing one only those
without a write id. -/
lemma plan_retry {ids : List String} {pre post : List Mutation} {m : Mutation}
    (hpre : ∀ x ∈ pre, x.Applicable) (hm : m.Applicable) :
    (plan (record m (plan ids pre).ids) (pre ++ m :: post)).kept =
      (pre ++ [m]).filter (·.writeId = "") ++ (plan (record m (plan ids pre).ids) post).kept := by
  set ids₁ := record m (plan ids pre).ids with hids₁
  have hall : ∀ x ∈ pre ++ [m], x.Applicable := by
    intro x hx
    rcases List.mem_append.mp hx with hx | hx
    · exact hpre x hx
    · exact List.mem_singleton.mp hx ▸ hm
  have hrecorded : ∀ x ∈ pre ++ [m], x.writeId ≠ "" → x.writeId ∈ ids₁ := by
    intro x hx hne
    rw [hids₁, record]
    rcases List.mem_append.mp hx with hx | hx
    · have hold := mem_plan_ids_of_mem (plan_stopped hpre ids) hx hne
      split_ifs
      · exact List.mem_cons_of_mem _ hold
      · exact hold
    · obtain rfl := List.mem_singleton.mp hx
      rw [if_pos hne]
      exact List.mem_cons_self
  have hfirst := plan_of_recorded hall hrecorded
  rw [List.append_cons, plan_append _ _ _ (by rw [hfirst]), hfirst]
  rfl

/-- The mutations that the retry applies although the failed call got past them: those up to the
failing one that have no write id. -/
def reapplied (pre : List Mutation) (m : Mutation) : List Mutation :=
  (pre ++ [m]).filter (·.writeId = "")

/-- Applied to what the failed call left, they do what the failing mutation should have done. -/
def RetrySafe (default : CollectionName) (e : RangoEngine σ ω) (pre : List Mutation)
    (m : Mutation) : Prop :=
  (reapplied pre m).foldl (deliver default e.nodeId) (stored e.storage) =
    deliver default e.nodeId (stored e.storage) m

/-- Where all mutations before it have write ids, the failing one must have none, or find its
document as it would leave it. -/
lemma retrySafe_iff {default : CollectionName} {e : RangoEngine σ ω} {pre : List Mutation}
    {m : Mutation} (hpre : ∀ x ∈ pre, x.writeId ≠ "") :
    RetrySafe default e pre m ↔
      m.writeId = "" ∨ deliver default e.nodeId (stored e.storage) m = stored e.storage := by
  have hnone : pre.filter (·.writeId = "") = [] := List.filter_eq_nil_iff.mpr (by simpa using hpre)
  unfold RetrySafe reapplied
  rw [List.filter_append, hnone, List.nil_append]
  by_cases hm : m.writeId = ""
  · simp [hm]
  · have hskip : [m].filter (·.writeId = "") = [] := by simp [hm]
    rw [hskip, List.foldl_nil]
    exact ⟨fun h => Or.inr h.symm, fun h => (h.resolve_left hm).symm⟩

/-- The engines hold the same documents and write ids, under one node id. -/
structure SameState {σ' ω' : Type} [FallibleStorage σ'] (e : RangoEngine σ ω)
    (e' : RangoEngine σ' ω') : Prop where
  docs : stored e'.storage = stored e.storage
  ids : e'.appliedWriteIds = e.appliedWriteIds
  nodeId : e'.nodeId = e.nodeId

variable {σ₁ ω₁ σ₂ ω₂ : Type} [FallibleStorage σ₁] [FallibleStorage σ₂]

/-- **Retrying a batch that failed.** A call on a batch of applicable mutations that fails was
interrupted by storage at some mutation. Apply the batch again to what the call left, and apply
it once to what the call started with, both without a failure: the documents are the same when
the retry is safe. They are the same only then, if the mutations after the failing one are for
other documents than that one and those that are applied again. -/
theorem retry_after_failure {e : RangoEngine σ ω} {default : CollectionName}
    {ms : List Mutation} (hvalid : ∀ m ∈ ms, m.Applicable) {err : RangoError}
    {e' : RangoEngine σ ω} (hfail : e.applyMutationsDeterministic default ms = (.error err, e')) :
    ∃ pre m post, ms.insertionSort CanonicalLe = pre ++ m :: post ∧
      Interrupted default e e' pre m ∧
      ∀ (again : RangoEngine σ₁ ω₁) (once : RangoEngine σ₂ ω₂) (n n' : ℕ),
        SameState e' again → (again.applyMutationsDeterministic default ms).1 = .ok n →
        SameState e once → (once.applyMutationsDeterministic default ms).1 = .ok n' →
          (RetrySafe default e' pre m →
            stored (again.applyMutationsDeterministic default ms).2.storage =
              stored (once.applyMutationsDeterministic default ms).2.storage) ∧
          ((∀ x ∈ post, ∀ y ∈ m :: reapplied pre m, x.filedAt default ≠ y.filedAt default) →
            stored (again.applyMutationsDeterministic default ms).2.storage =
              stored (once.applyMutationsDeterministic default ms).2.storage →
            RetrySafe default e' pre m) := by
  have hsorted : ∀ m ∈ ms.insertionSort CanonicalLe, m.Applicable := fun m hm =>
    hvalid m ((List.mem_insertionSort _).mp hm)
  have hcases := applyMutationsDeterministic_cases e default ms
  rw [hfail] at hcases
  rcases hcases with ⟨hout, -⟩ | ⟨err', pre, m, post, hsplit, -, hint, -⟩
  · rw [Plan.outcome_eq_ok (plan_stopped hsorted _)] at hout
    cases hout
  refine ⟨pre, m, post, hsplit, hint, ?_⟩
  intro again once n n' hagain hok honce hok'
  have hpre : ∀ x ∈ pre, x.Applicable := fun x hx =>
    hsorted x (by rw [hsplit]; exact List.mem_append_left _ hx)
  obtain ⟨hdocs, hnode, hids⟩ := hint.left
  set D := stored e'.storage with hD
  set later := (plan (record m (plan e.appliedWriteIds pre).ids) post).kept with hlater
  have hretry : stored (again.applyMutationsDeterministic default ms).2.storage =
      later.foldl (deliver default e'.nodeId)
        ((reapplied pre m).foldl (deliver default e'.nodeId) D) := by
    rw [(applyMutationsDeterministic_ok hok).docs, hagain.docs, hagain.nodeId, hagain.ids, hids,
      hsplit, plan_retry hpre hint.applicable, List.foldl_append]
    rfl
  have hsingle : stored (once.applyMutationsDeterministic default ms).2.storage =
      later.foldl (deliver default e'.nodeId) (deliver default e'.nodeId D m) := by
    rw [(applyMutationsDeterministic_ok hok').docs, honce.docs, honce.nodeId, honce.ids, hsplit,
      plan_append _ _ _ hint.passed, plan_cons_keep hint.applicable hint.new, Plan.andThen,
      List.foldl_append, List.foldl_cons, ← hdocs, hnode]
  rw [hretry, hsingle]
  constructor
  · intro hsafe
    rw [show (reapplied pre m).foldl (deliver default e'.nodeId) D =
      deliver default e'.nodeId D m from hsafe]
  · intro hother hsame
    funext c k
    by_cases hk : ∃ x ∈ post, x.filedAt default = some (c, k)
    · -- a place of a later mutation is not touched before
      obtain ⟨x, hx, hxk⟩ := hk
      have hne : ∀ y ∈ m :: reapplied pre m, y.filedAt default ≠ some (c, k) := fun y hy hyk =>
        hother x hx y hy (hxk.trans hyk.symm)
      rw [foldl_deliver_of_ne fun y hy => hne y (List.mem_cons_of_mem _ hy),
        deliver_of_ne (hne m List.mem_cons_self)]
    · -- any other place is not touched after
      have hne : ∀ x ∈ later, x.filedAt default ≠ some (c, k) := fun x hx hxk =>
        hk ⟨x, mem_of_mem_plan_kept hx, hxk⟩
      have hplace := congrFun (congrFun hsame c) k
      rwa [foldl_deliver_of_ne hne, foldl_deliver_of_ne hne] at hplace

end RangoEngine

/-! ## A worked example -/

section
attribute [local instance] Formatting.sample

/-- A new node over degrading storage that wants 100 bytes free, checks before every write and
reads the free space `readings` in turn. -/
def sampleDegrading (readings : ℕ → Except RangoError ℕ) :
    RangoEngine (DegradingStorage MemoryStorage) NullOplog :=
  .openEngine
    { inner := MemoryStorage.new, minFreeBytes := 100, degraded := false, lastAvailable := 1000,
      writeCounter := 0, checkInterval := 1, spaceChecker := readings, checks := 0 } ⟨0⟩ "a"

/-- The node whose disk is short of space at the first write. -/
def sampleShort : RangoEngine (DegradingStorage MemoryStorage) NullOplog :=
  sampleDegrading fun n => if n = 0 then .ok 50 else .ok 200

/-- The node after the call that failed. -/
def sampleFailed : RangoEngine (DegradingStorage MemoryStorage) NullOplog :=
  (sampleShort.applyMutationsDeterministic ⟨"c"⟩ [sampleInsert]).2

lemma sampleShort_fails : sampleShort.applyMutationsDeterministic ⟨"c"⟩ [sampleInsert] =
    (.error (.storage "Storage degraded: insufficient disk space"), sampleFailed) := by
  have hres : (sampleShort.applyMutationsDeterministic ⟨"c"⟩ [sampleInsert]).1 =
      .error (.storage "Storage degraded: insufficient disk space") := by decide +kernel
  rw [← hres]
  rfl

/-- An insert, a delete and another insert of one document, as they were received. -/
def sampleThree : List Mutation := [sampleAgain, sampleInsert, sampleDelete]

/-- The node whose disk is short of space at the second write. -/
def sampleShortLater : RangoEngine (DegradingStorage MemoryStorage) NullOplog :=
  sampleDegrading fun n => if n = 1 then .ok 50 else .ok 200

/-- The node after the delete failed. -/
def sampleFailedLater : RangoEngine (DegradingStorage MemoryStorage) NullOplog :=
  (sampleShortLater.applyMutationsDeterministic ⟨"c"⟩ sampleThree).2

lemma sampleShortLater_fails : sampleShortLater.applyMutationsDeterministic ⟨"c"⟩ sampleThree =
    (.error (.storage "Storage degraded: insufficient disk space"), sampleFailedLater) := by
  have hres : (sampleShortLater.applyMutationsDeterministic ⟨"c"⟩ sampleThree).1 =
      .error (.storage "Storage degraded: insufficient disk space") := by decide +kernel
  rw [← hres]
  rfl

/-- For three mutations of which the degraded storage rejects the second. -/
theorem RangoEngine.retry_after_failure_later :
    ∃ pre m post, sampleThree.insertionSort CanonicalLe = pre ++ m :: post ∧
      Interrupted ⟨"c"⟩ sampleShortLater sampleFailedLater pre m ∧
      ∀ (again once : RangoEngine (DegradingStorage MemoryStorage) NullOplog) (n n' : ℕ),
        SameState sampleFailedLater again →
        (again.applyMutationsDeterministic ⟨"c"⟩ sampleThree).1 = .ok n →
        SameState sampleShortLater once →
        (once.applyMutationsDeterministic ⟨"c"⟩ sampleThree).1 = .ok n' →
          (RetrySafe ⟨"c"⟩ sampleFailedLater pre m →
            stored (again.applyMutationsDeterministic ⟨"c"⟩ sampleThree).2.storage =
              stored (once.applyMutationsDeterministic ⟨"c"⟩ sampleThree).2.storage) ∧
          ((∀ x ∈ post, ∀ y ∈ m :: reapplied pre m, x.filedAt ⟨"c"⟩ ≠ y.filedAt ⟨"c"⟩) →
            stored (again.applyMutationsDeterministic ⟨"c"⟩ sampleThree).2.storage =
              stored (once.applyMutationsDeterministic ⟨"c"⟩ sampleThree).2.storage →
            RetrySafe ⟨"c"⟩ sampleFailedLater pre m) := by
  refine retry_after_failure (fun m hm => ?_) sampleShortLater_fails
  have hmem : m ∈ [sampleInsert, sampleDelete, sampleAgain] := by
    simp only [sampleThree, List.mem_cons, List.not_mem_nil, or_false] at hm ⊢
    tauto
  exact (replicaSet_again.wellFormed m hmem).replayable.applicable

/-- The first call fails for want of space. The retry, with space again, counts no mutation and
leaves the collection empty; one call with space stores the document. -/
theorem retry_loses_insert :
    sampleInsert.validateMetadata = .ok () ∧
      (sampleShort.applyMutationsDeterministic ⟨"c"⟩ [sampleInsert]).1 =
        .error (.storage "Storage degraded: insufficient disk space") ∧
      (sampleFailed.applyMutationsDeterministic ⟨"c"⟩ [sampleInsert]).1 = .ok 0 ∧
      stored (sampleFailed.applyMutationsDeterministic ⟨"c"⟩ [sampleInsert]).2.storage ⟨"c"⟩
        "\"d\"" = none ∧
      stored ((sampleDegrading fun _ => .ok 200).applyMutationsDeterministic ⟨"c"⟩
        [sampleInsert]).2.storage ⟨"c"⟩ "\"d\"" = sampleInsert.patch := by
  refine ⟨by decide, congrArg Prod.fst sampleShort_fails, ?_, ?_, ?_⟩
  · decide +kernel
  · decide +kernel
  · decide +kernel

end
end Rango
