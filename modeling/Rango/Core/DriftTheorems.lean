import Rango.Core.FailedRestoreTheorems
import Rango.Core.WriteTheorems

/-!
# Drift

A batch that is applied raises the drift count when it was out of order or carried a write id again.
The check of the order, five comparisons of neighbours, agrees with the order that the batch is
sorted by (`receivedOutOfOrder_iff`). A write id is recorded before its mutation is applied, so an
attempt that failed counts as a first one (`drift_detected_iff`).
-/

namespace Rango

namespace RangoEngine

/-! ## The order -/

section
variable [Formatting]

/-- The check of two neighbours is the order of the sort. -/
lemma outOfOrder_iff (a b : Mutation) : outOfOrder a b = true ↔ ¬CanonicalLe a b := by
  rw [canonicalLe_iff, not_le]
  simp only [sortKey, Prod.Lex.toLex_lt_toLex, outOfOrder, Bool.or_eq_true, Bool.and_eq_true,
    decide_eq_true_eq]
  constructor
  · rintro ((((h | ⟨h₁, h⟩) | ⟨⟨h₁, h₂⟩, h⟩) | ⟨⟨⟨h₁, h₂⟩, h₃⟩, h⟩) | ⟨⟨⟨⟨h₁, h₂⟩, h₃⟩, h₄⟩, h⟩)
    · exact .inl h
    · exact .inr ⟨h₁.symm, .inl h⟩
    · exact .inr ⟨h₁.symm, .inr ⟨h₂.symm, .inl h⟩⟩
    · exact .inr ⟨h₁.symm, .inr ⟨h₂.symm, .inr ⟨h₃.symm, .inl h⟩⟩⟩
    · exact .inr ⟨h₁.symm, .inr ⟨h₂.symm, .inr ⟨h₃.symm, .inr ⟨h₄.symm, h⟩⟩⟩⟩
  · rintro (h | ⟨h₁, h | ⟨h₂, h | ⟨h₃, h | ⟨h₄, h⟩⟩⟩⟩)
    · exact .inl (.inl (.inl (.inl h)))
    · exact .inl (.inl (.inl (.inr ⟨h₁.symm, h⟩)))
    · exact .inl (.inl (.inr ⟨⟨h₁.symm, h₂.symm⟩, h⟩))
    · exact .inl (.inr ⟨⟨⟨h₁.symm, h₂.symm⟩, h₃.symm⟩, h⟩)
    · exact .inr ⟨⟨⟨⟨h₁.symm, h₂.symm⟩, h₃.symm⟩, h₄.symm⟩, h⟩

/-- The check of all neighbours is whether the batch is sorted. -/
theorem receivedOutOfOrder_iff (ms : List Mutation) :
    receivedOutOfOrder ms = true ↔ ¬ms.Pairwise CanonicalLe := by
  rw [← List.isChain_iff_pairwise]
  induction ms with
  | nil => simp [receivedOutOfOrder]
  | cons a rest ih =>
    cases rest with
    | nil => simp [receivedOutOfOrder]
    | cons b rest =>
      rw [receivedOutOfOrder, Bool.or_eq_true, outOfOrder_iff, ih, List.isChain_cons_cons,
        not_and_or]

end

/-! ## Write ids that come again -/

/-- A non-empty write id is there twice, or is one of `ids`. -/
def CarriesAgain (ids : List String) (ms : List Mutation) : Prop :=
  ∃ w, w ≠ "" ∧ (2 ≤ (ms.map Mutation.writeId).count w ∨ w ∈ ms.map Mutation.writeId ∧ w ∈ ids)

lemma CarriesAgain.perm {ids : List String} {ms ms' : List Mutation} (hperm : ms.Perm ms')
    (h : CarriesAgain ids ms) : CarriesAgain ids ms' := by
  obtain ⟨w, hne, hw⟩ := h
  have hids := hperm.map Mutation.writeId
  refine ⟨w, hne, hw.imp (fun htwo => ?_) fun hmem => ⟨hids.mem_iff.mp hmem.1, hmem.2⟩⟩
  rwa [← hids.count_eq]

/-- A write id that is not recorded yet is from then on. -/
lemma carriesAgain_cons {ids : List String} {m : Mutation} {rest : List Mutation}
    (hnew : ¬(m.writeId ≠ "" ∧ m.writeId ∈ ids)) :
    CarriesAgain ids (m :: rest) ↔ CarriesAgain (record m ids) rest := by
  refine exists_congr fun w => and_congr_right fun hne => ?_
  rw [List.map_cons, List.mem_cons, mem_record]
  by_cases hw : w = m.writeId
  · -- now recorded, so once more is enough
    subst hw
    have hcount : 1 ≤ (rest.map Mutation.writeId).count m.writeId ↔
        m.writeId ∈ rest.map Mutation.writeId := List.one_le_count_iff
    have hnot : m.writeId ∉ ids := fun hmem => hnew ⟨hne, hmem⟩
    rw [List.count_cons_self, Nat.succ_le_succ_iff, hcount]
    simp only [hnot, and_false, or_false, hne, ne_eq, not_false_eq_true, and_true]
    exact ⟨.inr, fun h => h.elim (fun htwo => hcount.mp (by omega)) id⟩
  · rw [List.count_cons_of_ne (Ne.symm hw)]
    simp [hw]

/-! ## The loop -/

section
variable {σ ω : Type} [Formatting] [StorageEngine σ] {default : CollectionName}

/-- The write ids of the mutations that the loop applies: `apply_remote_mutation` returns `Ok`. -/
def appliedIds (default : CollectionName) (e : RangoEngine σ ω) (seen : List String) :
    List Mutation → List String
  | [] => []
  | m :: rest =>
    match m.validateMetadata with
    | .error _ => []
    | .ok () =>
      if m.writeId ≠ "" ∧ m.writeId ∈ seen then appliedIds default e seen rest
      else if m.writeId ≠ "" ∧ m.writeId ∈ e.appliedWriteIds then
        appliedIds default e (m.writeId :: seen) rest
      else
        match (e.recorded m).applyRemoteMutation (mutationCollection default m)
            (mutationDocument (e.recorded m).nodeId m) with
        | (.error _, _) => []
        | (.ok (), e) =>
          m.writeId ::
            appliedIds default e (if m.writeId ≠ "" then m.writeId :: seen else seen) rest

section
variable {e : RangoEngine σ ω} {seen : List String} {m : Mutation}

lemma appliedIds_of_invalid {err : String} (hval : m.validateMetadata = .error err)
    (rest : List Mutation) : appliedIds default e seen (m :: rest) = [] := by
  rw [appliedIds, hval]

lemma appliedIds_of_seen (hval : m.validateMetadata = .ok ())
    (hs : m.writeId ≠ "" ∧ m.writeId ∈ seen) (rest : List Mutation) :
    appliedIds default e seen (m :: rest) = appliedIds default e seen rest := by
  rw [appliedIds, hval]
  dsimp only
  rw [if_pos hs]

lemma appliedIds_of_dup (hval : m.validateMetadata = .ok ())
    (hfresh : ¬(m.writeId ≠ "" ∧ m.writeId ∈ seen))
    (hdup : m.writeId ≠ "" ∧ m.writeId ∈ e.appliedWriteIds) (rest : List Mutation) :
    appliedIds default e seen (m :: rest) = appliedIds default e (m.writeId :: seen) rest := by
  rw [appliedIds, hval]
  dsimp only
  rw [if_neg hfresh, if_pos hdup]

lemma appliedIds_of_new (hval : m.validateMetadata = .ok ())
    (hfresh : ¬(m.writeId ≠ "" ∧ m.writeId ∈ seen))
    (hnew : ¬(m.writeId ≠ "" ∧ m.writeId ∈ e.appliedWriteIds)) (rest : List Mutation) :
    appliedIds default e seen (m :: rest) =
      match (e.recorded m).applyRemoteMutation (mutationCollection default m)
          (mutationDocument (e.recorded m).nodeId m) with
      | (.error _, _) => []
      | (.ok (), e') => m.writeId ::
          appliedIds default e' (if m.writeId ≠ "" then m.writeId :: seen else seen) rest := by
  rw [appliedIds, hval]
  dsimp only
  rw [if_neg hfresh, if_neg hnew]

end

/-- A remote mutation changes the storage alone. -/
lemma applyRemoteMutation_rest (e : RangoEngine σ ω) (c : CollectionName) (doc : Document) :
    (e.applyRemoteMutation c doc).2 =
      { e with storage := (e.applyRemoteMutation c doc).2.storage } := by
  cases hid : doc.get "_id" with
  | none => simp only [applyRemoteMutation, hid]
  | some b =>
    have hrest : (e.storageGet c (DocumentId.fromBson b)).2 =
        { e with storage := (e.storageGet c (DocumentId.fromBson b)).2.storage } := rfl
    simp only [applyRemoteMutation, hid]
    rcases hcall : e.storageGet c (DocumentId.fromBson b) with ⟨r, e'⟩
    rw [hcall] at hrest
    have he' : e' = { e with storage := e'.storage } := hrest
    have hput : ∀ d, (e'.storagePut c (DocumentId.fromBson b) d).2 =
        { e with storage := (e'.storagePut c (DocumentId.fromBson b) d).2.storage } := by
      intro d
      rw [he']
      rfl
    cases r with
    | error err => exact he'
    | ok found =>
      cases found with
      | none => exact hput doc
      | some l =>
        dsimp only
        by_cases hdel : isDeleted l = true
        · rw [if_pos hdel]
          exact hput doc
        · rw [if_neg hdel]
          cases (docRevision doc).cmp (docRevision l) with
          | gt => exact hput (addConflict l doc)
          | lt => exact hput (addConflict doc l)
          | eq => exact he'

/-- What one round of the loop does to the recorded write ids and the flag, whichever mutations
follow. -/
inductive Round (default : CollectionName) (e : RangoEngine σ ω) (seen : List String)
    (applied : ℕ) (drift : Bool) (m : Mutation) : Prop
  | stops {err : RangoError} {e' : RangoEngine σ ω} (hids : e.appliedWriteIds ⊆ e'.appliedWriteIds)
      (hloop : ∀ rest, applyLoop default e seen applied drift (m :: rest) = (.error err, e'))
      (happlied : ∀ rest, appliedIds default e seen (m :: rest) = [])
  | skips {seen' : List String} (hagain : m.writeId ≠ "" ∧ m.writeId ∈ e.appliedWriteIds)
      (hseen : ∀ w ∈ seen', w ∈ e.appliedWriteIds)
      (hloop : ∀ rest, applyLoop default e seen applied drift (m :: rest) =
        applyLoop default e seen' applied true rest)
      (happlied : ∀ rest, appliedIds default e seen (m :: rest) = appliedIds default e seen' rest)
  | applies {seen' : List String} {e' : RangoEngine σ ω}
      (hnew : ¬(m.writeId ≠ "" ∧ m.writeId ∈ e.appliedWriteIds))
      (hids : e'.appliedWriteIds = record m e.appliedWriteIds)
      (hcount : e'.replayDriftDetections = e.replayDriftDetections)
      (hseen : ∀ w ∈ seen', w ∈ e'.appliedWriteIds)
      (hloop : ∀ rest, applyLoop default e seen applied drift (m :: rest) =
        applyLoop default e' seen' (applied + 1) drift rest)
      (happlied : ∀ rest,
        appliedIds default e seen (m :: rest) = m.writeId :: appliedIds default e' seen' rest)

omit [Formatting] [StorageEngine σ] in
lemma replayDriftDetections_recorded (e : RangoEngine σ ω) (m : Mutation) :
    (e.recorded m).replayDriftDetections = e.replayDriftDetections := by
  unfold recorded
  split_ifs <;> rfl

/-- **One round.** -/
theorem applyLoop_round (default : CollectionName) {e : RangoEngine σ ω} {seen : List String}
    (applied : ℕ) (drift : Bool) (m : Mutation) (hseen : ∀ w ∈ seen, w ∈ e.appliedWriteIds) :
    Round default e seen applied drift m := by
  cases hval : m.validateMetadata with
  | error err =>
    -- rejected before its write id is looked at
    exact .stops (List.Subset.refl _) (applyLoop_of_invalid hval) (appliedIds_of_invalid hval)
  | ok _ =>
    by_cases hs : m.writeId ≠ "" ∧ m.writeId ∈ seen
    · exact .skips ⟨hs.1, hseen _ hs.2⟩ hseen (applyLoop_of_seen hval hs)
        (appliedIds_of_seen hval hs)
    by_cases hagain : m.writeId ≠ "" ∧ m.writeId ∈ e.appliedWriteIds
    · exact .skips hagain (List.forall_mem_cons.mpr ⟨hagain.2, hseen⟩)
        (applyLoop_of_dup hval hs hagain) (appliedIds_of_dup hval hs hagain)
    -- the write id is recorded, and the outcome of the application decides
    have hloop : ∀ rest, applyLoop default e seen applied drift (m :: rest) = _ :=
      applyLoop_of_new hval hs hagain
    have happlied : ∀ rest, appliedIds default e seen (m :: rest) = _ :=
      appliedIds_of_new hval hs hagain
    have hrest := applyRemoteMutation_rest (e.recorded m) (mutationCollection default m)
      (mutationDocument (e.recorded m).nodeId m)
    rcases happly : (e.recorded m).applyRemoteMutation (mutationCollection default m)
      (mutationDocument (e.recorded m).nodeId m) with ⟨r, e'⟩
    rw [happly] at hrest
    simp only [happly] at hloop happlied
    have hids : e'.appliedWriteIds = record m e.appliedWriteIds :=
      (congrArg RangoEngine.appliedWriteIds hrest).trans appliedWriteIds_recorded
    cases r with
    | error err => exact .stops (hids ▸ subset_record m e.appliedWriteIds) hloop happlied
    | ok _ =>
      have hcount : e'.replayDriftDetections = e.replayDriftDetections :=
        (congrArg RangoEngine.replayDriftDetections hrest).trans
          (replayDriftDetections_recorded e m)
      exact .applies hagain hids hcount (hids ▸ seen_recorded hseen) hloop happlied

/-- Of a loop that comes to its end, the flag tells whether a write id came again. -/
theorem applyLoop_flag {ms : List Mutation} {e e' : RangoEngine σ ω} {seen : List String}
    {applied n : ℕ} {drift drift' : Bool} (hseen : ∀ w ∈ seen, w ∈ e.appliedWriteIds)
    (h : applyLoop default e seen applied drift ms = (.ok (n, drift'), e')) :
    (drift' = true ↔ drift = true ∨ CarriesAgain e.appliedWriteIds ms) ∧
      e'.replayDriftDetections = e.replayDriftDetections := by
  induction ms generalizing e seen applied drift with
  | nil =>
    cases h
    exact ⟨(or_iff_left (by simp [CarriesAgain])).symm, rfl⟩
  | cons m rest ih =>
    cases applyLoop_round default applied drift m hseen with
    | stops hids hloop happlied =>
      rw [hloop] at h
      cases h
    | skips hagain hseen' hloop happlied =>
      rw [hloop] at h
      obtain ⟨hflag, hcount⟩ := ih hseen' h
      have hthere : CarriesAgain e.appliedWriteIds (m :: rest) :=
        ⟨m.writeId, hagain.1, .inr ⟨by simp, hagain.2⟩⟩
      exact ⟨iff_of_true (hflag.mpr (.inl rfl)) (.inr hthere), hcount⟩
    | applies hnew hids hcount hseen' hloop happlied =>
      rw [hloop] at h
      obtain ⟨hflag, hsame⟩ := ih hseen' h
      rw [hids, ← carriesAgain_cons hnew] at hflag
      exact ⟨hflag, hsame.trans hcount⟩

/-- What the loop recorded stays recorded, and what it applies is recorded. -/
theorem applyLoop_records {ms : List Mutation} {e : RangoEngine σ ω} {seen : List String}
    {applied : ℕ} {drift : Bool} (hseen : ∀ w ∈ seen, w ∈ e.appliedWriteIds) :
    e.appliedWriteIds ⊆ (applyLoop default e seen applied drift ms).2.appliedWriteIds ∧
      ∀ w ∈ appliedIds default e seen ms, w ≠ "" →
        w ∈ (applyLoop default e seen applied drift ms).2.appliedWriteIds := by
  induction ms generalizing e seen applied drift with
  | nil => exact ⟨List.Subset.refl _, by simp [appliedIds]⟩
  | cons m rest ih =>
    cases applyLoop_round default applied drift m hseen with
    | stops hids hloop happlied =>
      rw [hloop, happlied]
      exact ⟨hids, by simp⟩
    | skips hagain hseen' hloop happlied =>
      rw [hloop, happlied]
      exact ih hseen'
    | @applies seen' e₁ hnew hids hcount hseen' hloop happlied =>
      rw [hloop, happlied]
      obtain ⟨hkept, happ⟩ := @ih e₁ seen' (applied + 1) drift hseen'
      rw [hids] at hkept
      refine ⟨List.Subset.trans (subset_record m _) hkept, List.forall_mem_cons.mpr ⟨?_, happ⟩⟩
      exact fun hne => hkept (mem_record.mpr (.inl ⟨hne, rfl⟩))

/-! ## Batches -/

/-- The write ids of the mutations of a batch that are applied. -/
def batchAppliedIds (e : RangoEngine σ ω) (default : CollectionName) (ms : List Mutation) :
    List String :=
  appliedIds default e [] (ms.insertionSort CanonicalLe)

/-- A batch is not in the canonical order, or a write id in it comes again. -/
def Drifts (ids : List String) (ms : List Mutation) : Prop :=
  ¬ms.Pairwise CanonicalLe ∨ CarriesAgain ids ms

/-- A single mutation is in order and does not come again. -/
lemma not_drifts_singleton (m : Mutation) : ¬Drifts [] [m] := by
  rintro (horder | ⟨w, -, htwo | ⟨-, hmem⟩⟩)
  · exact horder (List.pairwise_singleton _ _)
  · have hone := List.count_le_length (a := w) (l := [m.writeId])
    exact absurd (htwo.trans hone) (by simp)
  · cases hmem

/-- From `e` to `e'` the drift count is raised by one just when `P`. -/
def CountsDrift (e e' : RangoEngine σ ω) (P : Prop) : Prop :=
  (P → e'.replayDriftDetections = e.replayDriftDetections + 1) ∧
    (¬P → e'.replayDriftDetections = e.replayDriftDetections)

lemma applyMutationsDeterministic_records (e : RangoEngine σ ω) (default : CollectionName)
    (ms : List Mutation) :
    e.appliedWriteIds ⊆ (e.applyMutationsDeterministic default ms).2.appliedWriteIds ∧
      ∀ w ∈ e.batchAppliedIds default ms, w ≠ "" →
        w ∈ (e.applyMutationsDeterministic default ms).2.appliedWriteIds := by
  obtain ⟨-, -, hids⟩ := applyMutationsDeterministic_of_loop e default ms
  rw [hids]
  exact applyLoop_records (by simp)

/-- A batch that is applied to its end, against what the engine has recorded. -/
theorem applyMutationsDeterministic_countsDrift {e : RangoEngine σ ω} {ms : List Mutation} {n : ℕ}
    (hok : (e.applyMutationsDeterministic default ms).1 = .ok n) :
    CountsDrift e (e.applyMutationsDeterministic default ms).2 (Drifts e.appliedWriteIds ms) := by
  have hperm : (ms.insertionSort CanonicalLe).Perm ms := List.perm_insertionSort CanonicalLe ms
  have hagain : CarriesAgain e.appliedWriteIds (ms.insertionSort CanonicalLe) ↔
      CarriesAgain e.appliedWriteIds ms := ⟨.perm hperm, .perm hperm.symm⟩
  unfold applyMutationsDeterministic at hok ⊢
  rcases hloop : applyLoop default e [] 0 (receivedOutOfOrder ms)
    (ms.insertionSort CanonicalLe) with ⟨r, e'⟩
  rw [hloop] at hok
  cases r with
  | error err => cases hok
  | ok p =>
    obtain ⟨applied, drift⟩ := p
    obtain ⟨hflag, hcount⟩ := applyLoop_flag (by simp) hloop
    rw [receivedOutOfOrder_iff, hagain] at hflag
    dsimp only
    constructor
    · intro hdrifts
      rw [if_pos (hflag.mpr hdrifts)]
      exact congrArg (· + 1) hcount
    · intro hcalm
      rw [if_neg fun hdrift => hcalm (hflag.mp hdrift)]
      exact hcount

/-! ## What an engine has applied -/

/-- An engine, from its opening on, together with the write ids of the mutations that it has
applied. No other call records a write id. -/
inductive Ledger : RangoEngine σ ω → List String → Prop
  | opened (storage : σ) (oplog : ω) (nodeId : String) (config : RangoConfig) :
      Ledger (openWithConfig storage oplog nodeId config) []
  | batch {e : RangoEngine σ ω} {applied : List String} (h : Ledger e applied)
      (default : CollectionName) (ms : List Mutation) :
      Ledger (e.applyMutationsDeterministic default ms).2
        (applied ++ e.batchAppliedIds default ms)
  | other {e e' : RangoEngine σ ω} {applied : List String} (h : Ledger e applied)
      (hids : e'.appliedWriteIds = e.appliedWriteIds) : Ledger e' applied

/-- What was applied is recorded. -/
lemma Ledger.recorded {e : RangoEngine σ ω} {applied : List String} (h : Ledger e applied) :
    ∀ w ∈ applied, w ≠ "" → w ∈ e.appliedWriteIds := by
  induction h with
  | opened => simp
  | @batch e applied h default ms ih =>
    obtain ⟨hkept, happ⟩ := applyMutationsDeterministic_records e default ms
    intro w hw hne
    rcases List.mem_append.mp hw with hw | hw
    · exact hkept (ih w hw hne)
    · exact happ w hw hne
  | other h hids ih => rwa [hids]

/-- **Drift.** A batch that is applied to its end is counted as drift when it is not in the
canonical order or one of its write ids comes again: is there twice or was recorded. Which of them
were applied decides just when no write id of the batch was recorded only, or it drifts anyway. -/
theorem drift_detected_iff {e : RangoEngine σ ω} {applied : List String} {ms : List Mutation}
    {n : ℕ} (h : Ledger e applied)
    (hok : (e.applyMutationsDeterministic default ms).1 = .ok n) :
    CountsDrift e (e.applyMutationsDeterministic default ms).2 (Drifts e.appliedWriteIds ms) ∧
      (CountsDrift e (e.applyMutationsDeterministic default ms).2 (Drifts applied ms) ↔
        ((∃ m ∈ ms, m.writeId ≠ "" ∧ m.writeId ∈ e.appliedWriteIds ∧ m.writeId ∉ applied) →
          Drifts applied ms)) := by
  have hcounts := applyMutationsDeterministic_countsDrift hok
  refine ⟨hcounts, fun happlied hrecorded => ?_, fun hcover => ⟨fun hdrifts => ?_, fun hcalm => ?_⟩⟩
  · -- a write id that is recorded only raises the count
    obtain ⟨m, hm, hne, hmem, -⟩ := hrecorded
    by_contra hcalm
    have hagain : CarriesAgain e.appliedWriteIds ms :=
      ⟨m.writeId, hne, .inr ⟨List.mem_map_of_mem hm, hmem⟩⟩
    have hone := hcounts.1 (.inr hagain)
    have hzero := happlied.2 hcalm
    omega
  · refine hcounts.1 (hdrifts.imp_right ?_)
    rintro ⟨w, hne, hw⟩
    exact ⟨w, hne, hw.imp_right fun hmem => ⟨hmem.1, h.recorded w hmem.2 hne⟩⟩
  · refine hcounts.2 fun hdrifts => hcalm ?_
    rcases hdrifts with horder | ⟨w, hne, htwo | ⟨hmem, hids⟩⟩
    · exact .inl horder
    · exact .inr ⟨w, hne, .inl htwo⟩
    · by_cases hw : w ∈ applied
      · exact .inr ⟨w, hne, .inr ⟨hmem, hw⟩⟩
      · obtain ⟨m, hm, rfl⟩ := List.mem_map.mp hmem
        exact hcover ⟨m, hm, hne, hids, hw⟩

end

/-! ## The calls that make up a history -/

section
variable {σ ω : Type} [Formatting] [FallibleStorage σ]

omit [Formatting] in
/-- Documents that are deleted or put by themselves record no write id. -/
lemma eachDocument_ids {α : Type}
    {call : RangoEngine σ ω → DocumentId → Document → Except RangoError α × RangoEngine σ ω}
    (hcall : ∀ e id doc, (call e id doc).2.appliedWriteIds = e.appliedWriteIds)
    (e : RangoEngine σ ω) (docs : List Document) :
    (eachDocument call e docs).2.appliedWriteIds = e.appliedWriteIds := by
  induction docs generalizing e with
  | nil => rfl
  | cons doc rest ih =>
    cases hid : doc.get "_id" with
    | none =>
      rw [eachDocument_cons_none hid]
      exact ih e
    | some b =>
      have hone := hcall e (DocumentId.fromBson b) doc
      rw [eachDocument_cons_some hid]
      rcases hres : call e (DocumentId.fromBson b) doc with ⟨r, e'⟩
      rw [hres] at hone
      cases r with
      | error err => exact hone
      | ok _ => exact (ih e').trans hone

/-- A restore applies what it replays. -/
lemma Ledger.restore {e : RangoEngine σ ω} {applied : List String} (h : Ledger e applied)
    (c : CollectionName) (snapshot : SnapshotUnit) (replay : List Mutation) :
    ∃ more, Ledger (e.restoreFromSnapshot c snapshot replay).2 (applied ++ more) := by
  have hsame : ∀ e' : RangoEngine σ ω, e'.appliedWriteIds = e.appliedWriteIds →
      ∃ more, Ledger e' (applied ++ more) := by
    intro e' hids
    exact ⟨[], by rw [List.append_nil]; exact h.other hids⟩
  unfold restoreFromSnapshot
  split_ifs
  · exact hsame e rfl
  have hscan : (e.findAllRaw c).2.appliedWriteIds = e.appliedWriteIds := by
    rw [(findAllRaw_holds e c).1.rest]
  rcases hfound : e.findAllRaw c with ⟨r, e₁⟩
  rw [hfound] at hscan
  cases r with
  | error err => exact hsame e₁ hscan
  | ok existing =>
    dsimp only
    have hwipe : (wipe c e₁ existing).2.appliedWriteIds = e₁.appliedWriteIds := by
      rw [wipe_eq_eachDocument]
      exact eachDocument_ids (fun _ _ _ => rfl) e₁ existing
    rcases hwiped : wipe c e₁ existing with ⟨r, e₂⟩
    rw [hwiped] at hwipe
    cases r with
    | error err => exact hsame e₂ (hwipe.trans hscan)
    | ok _ =>
      dsimp only
      have hrefill : (refill c e₂ snapshot.state).2.appliedWriteIds = e₂.appliedWriteIds := by
        rw [refill_eq_eachDocument]
        exact eachDocument_ids (fun _ _ _ => rfl) e₂ snapshot.state
      rcases hrefilled : refill c e₂ snapshot.state with ⟨r, e₃⟩
      rw [hrefilled] at hrefill
      have hids := hrefill.trans (hwipe.trans hscan)
      cases r with
      | error err => exact hsame e₃ hids
      | ok _ => exact ⟨_, (h.other hids).batch c replay⟩

/-- So does a run of local writes and batches. -/
lemma Ledger.run [Oplog ω] [BsonCodec] [MutationHasher] [Arithmetic] {e : RangoEngine σ ω}
    {applied : List String} (h : Ledger e applied) (steps : List EngineStep) :
    ∃ more, Ledger (e.run steps) (applied ++ more) := by
  induction steps generalizing e applied with
  | nil => exact ⟨[], by rwa [List.append_nil]⟩
  | cons s rest ih =>
    have hwrite : s.clock.isSome →
        ∃ more, Ledger (RangoEngine.run (e.step s) rest) (applied ++ more) :=
      fun hs => ih (h.other (step_frame e hs).2)
    cases s with
    | insert c doc t => exact hwrite rfl
    | update c id update t => exact hwrite rfl
    | delete c id t => exact hwrite rfl
    | applyBatch default ms =>
      obtain ⟨more, hmore⟩ := ih (h.batch default ms)
      rw [List.append_assoc] at hmore
      exact ⟨_, hmore⟩

end

/-! ## A failed attempt -/

section
attribute [local instance] Formatting.sample

/-- Three mutations that are not received in the canonical order are a drift. -/
theorem drift_detected_disordered :
    ((sampleDegrading fun _ => .ok 200).applyMutationsDeterministic ⟨"c"⟩
      sampleThree).2.replayDriftDetections = 1 := by
  have hok : ((sampleDegrading fun _ => .ok 200).applyMutationsDeterministic ⟨"c"⟩
      sampleThree).1 = .ok 3 := by decide +kernel
  have hdrifts : Drifts [] sampleThree := Or.inl (by decide)
  exact (drift_detected_iff (.opened _ _ _ _) hok).1.1 hdrifts

/-- The application of a mutation fails. Applied again, it is counted as drift, in a batch of its
own and with no mutation applied before. -/
theorem failed_attempt_counts_as_drift :
    Ledger sampleFailed [] ∧
      (sampleFailed.applyMutationsDeterministic ⟨"c"⟩ [sampleInsert]).1 = .ok 0 ∧
      ¬Drifts [] [sampleInsert] ∧
      ¬CountsDrift sampleFailed
        (sampleFailed.applyMutationsDeterministic ⟨"c"⟩ [sampleInsert]).2
        (Drifts [] [sampleInsert]) := by
  have hnone : sampleShort.batchAppliedIds ⟨"c"⟩ [sampleInsert] = [] := by decide +kernel
  have hopened : Ledger sampleShort [] := .opened _ _ _ _
  have hhistory : Ledger sampleFailed [] := by
    have hbatch := hopened.batch ⟨"c"⟩ [sampleInsert]
    rwa [hnone] at hbatch
  refine ⟨hhistory, by decide +kernel, not_drifts_singleton _, fun hcounts => ?_⟩
  have hone : (sampleFailed.applyMutationsDeterministic ⟨"c"⟩
      [sampleInsert]).2.replayDriftDetections = sampleFailed.replayDriftDetections + 1 := by
    decide +kernel
  have hzero := hcounts.2 (not_drifts_singleton sampleInsert)
  omega

end

end RangoEngine
end Rango
