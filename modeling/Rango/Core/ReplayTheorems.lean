import Rango.Storage.Memory
import Rango.Oplog.Log
import Rango.Core.ApplyTheorems

/-!
# Replay order

A batch is sorted before it is applied, so the order in which it was received can only show
in the drift metric. This holds for every storage backend, failing ones included.
-/

namespace Rango

section
variable [Formatting]

/-! ## The canonical order -/

/-- The five components the canonical order compares agree. -/
def SameSortKey (a b : Mutation) : Prop :=
  a.collection = b.collection ∧ a.timestamp = b.timestamp ∧ a.seq = b.seq ∧
    a.docId.toString = b.docId.toString ∧ a.writeId = b.writeId

instance (a b : Mutation) : Decidable (SameSortKey a b) :=
  inferInstanceAs (Decidable (_ ∧ _ ∧ _ ∧ _ ∧ _))

/-- The components, as a key in a linear order. -/
def sortKey (m : Mutation) : String ×ₗ DateTime ×ₗ ℕ ×ₗ String ×ₗ String :=
  toLex (m.collection, toLex (m.timestamp, toLex (m.seq, toLex (m.docId.toString, m.writeId))))

namespace RangoEngine

lemma canonicalCmp_eq_compare (a b : Mutation) :
    canonicalCmp a b = compare (sortKey a) (sortKey b) := rfl

lemma canonicalLe_iff (a b : Mutation) : CanonicalLe a b ↔ sortKey a ≤ sortKey b := by
  rw [CanonicalLe, canonicalCmp_eq_compare, compare_le_iff_le]

/-- Strictly before, in the canonical order. -/
def CanonicalLt (a b : Mutation) : Prop := canonicalCmp a b = .lt

lemma CanonicalLt.le {a b : Mutation} (h : CanonicalLt a b) : CanonicalLe a b := by
  rw [CanonicalLe, show canonicalCmp a b = .lt from h]
  decide

instance : Std.Total CanonicalLe where
  total a b := by
    rw [canonicalLe_iff, canonicalLe_iff]
    exact le_total _ _

instance : IsTrans Mutation CanonicalLe where
  trans a b c hab hbc := by
    rw [canonicalLe_iff] at hab hbc ⊢
    exact hab.trans hbc

lemma sameSortKey_of_le {a b : Mutation} (hab : CanonicalLe a b) (hba : CanonicalLe b a) :
    SameSortKey a b := by
  rw [canonicalLe_iff] at hab hba
  have h : sortKey a = sortKey b := le_antisymm hab hba
  simpa [sortKey, SameSortKey] using h

lemma canonicalLt_iff (a b : Mutation) : CanonicalLt a b ↔ sortKey a < sortKey b := by
  rw [CanonicalLt, canonicalCmp_eq_compare, compare_lt_iff_lt]

lemma CanonicalLt.asymm {a b : Mutation} (h : CanonicalLt a b) : ¬ CanonicalLt b a := by
  rw [canonicalLt_iff] at h ⊢
  exact lt_asymm h

/-- Within a collection the timestamp decides first. -/
lemma canonicalLt_of_timestamp {a b : Mutation} (hcoll : a.collection = b.collection)
    (ht : a.timestamp < b.timestamp) : CanonicalLt a b := by
  rw [canonicalLt_iff, sortKey, sortKey, Prod.Lex.toLex_lt_toLex]
  refine Or.inr ⟨hcoll, ?_⟩
  rw [Prod.Lex.toLex_lt_toLex]
  exact Or.inl ht

/-- Mutations with distinct write ids are sorted strictly. -/
lemma pairwise_canonicalLt {ms : List Mutation}
    (hids : ms.Pairwise fun a b => a.writeId ≠ b.writeId) :
    (ms.insertionSort CanonicalLe).Pairwise CanonicalLt := by
  have hperm := List.perm_insertionSort CanonicalLe ms
  have hdistinct := (hperm.pairwise_iff fun h => Ne.symm h).mpr hids
  refine (List.pairwise_insertionSort CanonicalLe ms).imp₂ (fun a b hle hne => ?_) hdistinct
  rw [canonicalLe_iff] at hle
  rw [canonicalLt_iff]
  refine lt_of_le_of_ne hle fun heq => hne ?_
  have hsame : SameSortKey a b :=
    sameSortKey_of_le ((canonicalLe_iff a b).mpr heq.le) ((canonicalLe_iff b a).mpr heq.ge)
  exact hsame.2.2.2.2

/-! ## The drift flag -/

variable {σ ω : Type} [StorageEngine σ]

/-- The drift flag a pass starts with changes nothing but the flag it ends with. -/
lemma applyLoop_drift (default : CollectionName) (e : RangoEngine σ ω) (seen : List String)
    (applied : ℕ) (d d' : Bool) (ms : List Mutation) :
    (applyLoop default e seen applied d ms).1.map Prod.fst
        = (applyLoop default e seen applied d' ms).1.map Prod.fst ∧
      (applyLoop default e seen applied d ms).2
        = (applyLoop default e seen applied d' ms).2 := by
  induction ms generalizing e seen applied d d' with
  | nil => exact ⟨rfl, rfl⟩
  | cons m rest ih =>
    unfold applyLoop
    split
    · exact ⟨rfl, rfl⟩
    · split_ifs
      · exact ⟨rfl, rfl⟩
      · exact ⟨rfl, rfl⟩
      · dsimp only
        split
        · exact ⟨rfl, rfl⟩
        · exact ih _ _ _ d d'
      · dsimp only
        split
        · exact ⟨rfl, rfl⟩
        · exact ih _ _ _ d d'

/-- What the batch operation returns and leaves, from the loop without the drift check. -/
lemma applyMutationsDeterministic_of_loop (e : RangoEngine σ ω) (default : CollectionName)
    (ms : List Mutation) :
    let r := applyLoop default e [] 0 false (ms.insertionSort CanonicalLe)
    (e.applyMutationsDeterministic default ms).1 = r.1.map Prod.fst ∧
      (e.applyMutationsDeterministic default ms).2.storage = r.2.storage ∧
      (e.applyMutationsDeterministic default ms).2.appliedWriteIds = r.2.appliedWriteIds := by
  obtain ⟨hres, heng⟩ := applyLoop_drift default e [] 0 false (receivedOutOfOrder ms)
    (ms.insertionSort CanonicalLe)
  dsimp only
  rw [hres, heng]
  unfold applyMutationsDeterministic
  rcases applyLoop default e [] 0 (receivedOutOfOrder ms)
    (ms.insertionSort CanonicalLe) with ⟨r, e'⟩
  cases r with
  | error err => exact ⟨rfl, rfl, rfl⟩
  | ok p => exact ⟨rfl, by dsimp only; split <;> rfl, by dsimp only; split <;> rfl⟩

/-! ## One batch in any order -/

/-- The order of a batch does not matter: when mutations with equal sort keys are equal, a
permuted batch gives the same count or error, the same storage and the same recorded write
ids. -/
theorem applyMutationsDeterministic_perm (e : RangoEngine σ ω) (default : CollectionName)
    {ms ms' : List Mutation} (hp : ms.Perm ms')
    (htie : ∀ a ∈ ms, ∀ b ∈ ms, SameSortKey a b → a = b) :
    (e.applyMutationsDeterministic default ms).1
        = (e.applyMutationsDeterministic default ms').1 ∧
      (e.applyMutationsDeterministic default ms).2.storage
        = (e.applyMutationsDeterministic default ms').2.storage ∧
      (e.applyMutationsDeterministic default ms).2.appliedWriteIds
        = (e.applyMutationsDeterministic default ms').2.appliedWriteIds := by
  have hsort : ms.insertionSort CanonicalLe = ms'.insertionSort CanonicalLe :=
    Sorting.insertionSort_eq_of_perm hp fun a ha b hb hab hba =>
      htie a ha b hb (sameSortKey_of_le hab hba)
  obtain ⟨h₁, h₂, h₃⟩ := applyMutationsDeterministic_of_loop e default ms
  obtain ⟨h₁', h₂', h₃'⟩ := applyMutationsDeterministic_of_loop e default ms'
  rw [h₁, h₂, h₃, h₁', h₂', h₃', hsort]
  exact ⟨rfl, rfl, rfl⟩

end RangoEngine
end

section
attribute [local instance] Formatting.sample

/-- A freshly opened in-memory node, for worked examples. -/
def sampleNode (nodeId : String) : RangoEngine MemoryStorage NullOplog :=
  RangoEngine.openEngine MemoryStorage.new ⟨0⟩ nodeId

/-- The insert of document `"d"` into collection `"c"`. -/
def sampleInsert : Mutation :=
  .sample "c" "tenant" "d" .insert
    (some ⟨[("_id", .string "d"), ("_rev", .string "1-0-aaaa")]⟩) 1 "1-0-aaaa" "w1"

/-- Its later deletion, in the form that `delete_one` sends. -/
def sampleDelete : Mutation := .sample "c" "tenant" "d" .delete none 2 "2-0-aaaa" "w2"

/-- The insert and the delete may be received in either order within a batch. -/
theorem RangoEngine.applyMutationsDeterministic_swap :
    ((sampleNode "a").applyMutationsDeterministic ⟨"c"⟩ [sampleInsert, sampleDelete]).1
        = ((sampleNode "a").applyMutationsDeterministic ⟨"c"⟩ [sampleDelete, sampleInsert]).1 ∧
      ((sampleNode "a").applyMutationsDeterministic ⟨"c"⟩ [sampleInsert, sampleDelete]).2.storage
        = ((sampleNode "a").applyMutationsDeterministic ⟨"c"⟩
            [sampleDelete, sampleInsert]).2.storage ∧
      ((sampleNode "a").applyMutationsDeterministic ⟨"c"⟩
          [sampleInsert, sampleDelete]).2.appliedWriteIds
        = ((sampleNode "a").applyMutationsDeterministic ⟨"c"⟩
            [sampleDelete, sampleInsert]).2.appliedWriteIds :=
  RangoEngine.applyMutationsDeterministic_perm (sampleNode "a") ⟨"c"⟩
    (List.Perm.swap sampleDelete sampleInsert []) (by decide)

end
end Rango
