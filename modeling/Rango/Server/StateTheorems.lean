import Rango.Server.Routes

/-!
# Operations on the server's state

What the operations under the requests do: which fields they leave alone, when an audit record
is valid, when a scope passes the containment gate, and what an in-memory log takes in.
-/

namespace Rango

/-! ## Decisions on pushed mutations -/

/-- A decision keeps its outcome when its reason is normalized. -/
lemma isReject_normalizeWriteDecision (d : GovernanceDecision) :
    ControlPlane.isReject (normalizeWriteDecision d) = ControlPlane.isReject d := by
  unfold normalizeWriteDecision
  split_ifs <;> rfl

/-- What the control plane answers to a mutation of a push. -/
def pushDecision {η : Type} [Formatting] (cp : ControlPlane η) (req : PushRequest) (m : Mutation)
    (hooks : η) : GovernanceDecision × η :=
  cp.writePath { tenantId := req.tenantId, nameSpace := req.nameSpace, actor := m.metadata.actor
                 source := m.metadata.source, tier := .state }
    (.stateWithTrust (m.patch.getD Document.empty) m.metadata.trustScore) hooks

/-- The default control plane allows a valid mutation exactly when its trust score reaches a
quarter. -/
lemma pushDecision_default [Formatting] {req : PushRequest} {m : Mutation}
    (hvalid : m.validateMetadata = .ok ()) :
    ControlPlane.isReject (pushDecision .default req m ()).1 = false ↔
      F64.quarter.le m.metadata.trustScore = true := by
  obtain ⟨-, -, -, -, -, -, -, htrust, -⟩ :=
    (MutationMetadata.validate_eq_ok_iff m.metadata).mp hvalid
  exact ControlPlane.writePath_default _ _ htrust

namespace ServerState

section
variable {ω η : Type} (st : ServerState ω η)

/-! ## Indexes -/

@[simp] lemma indexMutation_oplog (seq : ℕ) (m : Mutation) :
    (st.indexMutation seq m).oplog = st.oplog := by
  unfold indexMutation
  split_ifs <;> rfl

@[simp] lemma indexMutation_containment (seq : ℕ) (m : Mutation) :
    (st.indexMutation seq m).containment = st.containment := by
  unfold indexMutation
  split_ifs <;> rfl

/-- Indexing an audit record does nothing. -/
@[simp] lemma indexMutation_audit (seq : ℕ) {m : Mutation} (h : m.collection = auditCollection) :
    st.indexMutation seq m = st := by
  simp [indexMutation, h]

/-- What indexing makes of the indexes depends on these alone. -/
lemma indexMutation_congr {st st' : ServerState ω η} (h : st.scopedLatest = st'.scopedLatest)
    (h' : st.scopedWriteIds = st'.scopedWriteIds) (seq : ℕ) (m : Mutation) :
    (st.indexMutation seq m).scopedLatest = (st'.indexMutation seq m).scopedLatest ∧
      (st.indexMutation seq m).scopedWriteIds = (st'.indexMutation seq m).scopedWriteIds := by
  unfold indexMutation
  split_ifs
  · exact ⟨h, h'⟩
  · rw [h, h']
    exact ⟨rfl, rfl⟩

lemma foldl_indexMutation_oplog (entries : List OplogEntry) :
    (entries.foldl (fun st e => st.indexMutation e.seq e.mutation) st).oplog = st.oplog := by
  induction entries generalizing st with
  | nil => rfl
  | cons e rest ih => rw [List.foldl_cons, ih, indexMutation_oplog]

lemma foldl_indexMutation_containment (entries : List OplogEntry) :
    (entries.foldl (fun st e => st.indexMutation e.seq e.mutation) st).containment =
      st.containment := by
  induction entries generalizing st with
  | nil => rfl
  | cons e rest ih => rw [List.foldl_cons, ih, indexMutation_containment]

/-- A server starts with the index of some entries. -/
lemma withControlPlane_eq_foldl [Oplog ω] (oplog : ω) (hooks : η) (tick : ℕ) :
    ∃ entries : List OplogEntry, withControlPlane oplog hooks tick =
      entries.foldl (fun st e => st.indexMutation e.seq e.mutation)
        (unindexed oplog hooks tick) := by
  unfold withControlPlane
  split
  · exact ⟨[], rfl⟩
  · split
    · exact ⟨[], rfl⟩
    · split
      · exact ⟨[], rfl⟩
      · exact ⟨_, rfl⟩

@[simp] lemma withControlPlane_oplog [Oplog ω] (oplog : ω) (hooks : η) (tick : ℕ) :
    (withControlPlane oplog hooks tick).oplog = oplog := by
  obtain ⟨entries, h⟩ := withControlPlane_eq_foldl oplog hooks tick
  rw [h, foldl_indexMutation_oplog]
  rfl

@[simp] lemma withControlPlane_containment [Oplog ω] (oplog : ω) (hooks : η) (tick : ℕ)
    (scope : String × String) :
    (withControlPlane oplog hooks tick).containment scope = none := by
  obtain ⟨entries, h⟩ := withControlPlane_eq_foldl oplog hooks tick
  rw [h, foldl_indexMutation_containment]
  rfl

/-- The checkpoint of a scope is its latest number, which is zero when it has none. -/
lemma scopedLatestCheckpoint_eq (tenantId nameSpace : String) :
    st.scopedLatestCheckpoint tenantId nameSpace = st.scopedLatestSeq tenantId nameSpace := by
  simp only [scopedLatestCheckpoint]
  split_ifs with hzero
  · exact hzero.symm
  · rfl

lemma scopedLatestCheckpoint_congr {st st' : ServerState ω η}
    (h : st.scopedLatest = st'.scopedLatest) (tenantId nameSpace : String) :
    st.scopedLatestCheckpoint tenantId nameSpace =
      st'.scopedLatestCheckpoint tenantId nameSpace := by
  rw [scopedLatestCheckpoint_eq, scopedLatestCheckpoint_eq, scopedLatestSeq, scopedLatestSeq, h]

/-- Indexing a client's mutation moves the checkpoint of its scope to its number, at least. -/
lemma le_scopedLatestCheckpoint_indexMutation (seq : ℕ) {m : Mutation}
    (h : m.collection ≠ auditCollection) :
    seq ≤ (st.indexMutation seq m).scopedLatestCheckpoint m.metadata.tenantId
      m.metadata.nameSpace := by
  have hlatest : (st.indexMutation seq m).scopedLatestSeq m.metadata.tenantId
      m.metadata.nameSpace =
        ((st.scopedLatest (m.metadata.tenantId, m.metadata.nameSpace)).map
          fun current => max current seq).getD seq := by
    simp [indexMutation, h, scopedLatestSeq]
  rw [scopedLatestCheckpoint_eq, hlatest]
  cases st.scopedLatest (m.metadata.tenantId, m.metadata.nameSpace) with
  | none => exact le_rfl
  | some current => exact le_max_right _ _

/-! ## Containment -/

section
variable [Surroundings] {tenantId nameSpace : String}

@[simp] lemma registerDecisionOutcome_oplog (tenantId nameSpace : String)
    (d : GovernanceDecision) :
    (st.registerDecisionOutcome tenantId nameSpace d).oplog = st.oplog := rfl

variable {st}

/-- Containment only ever rejects. -/
lemma containmentGate_reject {d : GovernanceDecision}
    (h : (st.containmentGate tenantId nameSpace).1 = some d) :
    ControlPlane.isReject d = true := by
  simp only [containmentGate, ContainmentState.gate] at h
  split at h
  · cases h
  all_goals
    obtain rfl := Option.some.inj h
    rfl

/-- The scope is not contained. -/
def Calm (st : ServerState ω η) (tenantId nameSpace : String) : Prop :=
  ∀ s, st.containment (tenantId, nameSpace) = some s → s.mode = .normal

/-- The requests of a calm scope pass the gate. -/
lemma Calm.containmentGate (h : st.Calm tenantId nameSpace) :
    (st.containmentGate tenantId nameSpace).1 = none := by
  have hmode : (st.containmentOf tenantId nameSpace).mode = .normal := by
    unfold containmentOf
    cases hs : st.containment (tenantId, nameSpace) with
    | none => rfl
    | some s => exact h s hs
  simp only [ServerState.containmentGate, ContainmentState.gate,
    ContainmentState.maybeResetAfterCooldown]
  split_ifs <;> simp [hmode]

end

/-! ## Audit records -/

section
variable [Formatting]

/-- The server's own audit records are valid, as long as the request names a tenant and a
namespace and the clock does not go back between its two readings. -/
theorem auditMutation_valid {stage tenantId nameSpace : String} {writeId : Option String}
    {d : GovernanceDecision} {eventNum : ℕ} {t : AuditClock}
    (htenant : tenantId ≠ "") (hnamespace : nameSpace ≠ "")
    (huuid : t.uuid.length = 16) (hclock : t.createdAt ≤ t.updatedAt) :
    (auditMutation stage tenantId nameSpace writeId d eventNum t).validateMetadata = .ok () := by
  have hlineage : (DocumentId.newUuidV7 t.uuid).toString ≠ "" := by
    simp [DocumentId.toString, DocumentId.newUuidV7, huuid, DocumentId.uuidDisplay]
  have hfixed : auditType ≠ "" ∧ "server.runtime" ≠ "" ∧ "governance" ≠ "" ∧
      F64.one.inUnit = true := by decide
  obtain ⟨htype, hsource, hactor, htrust⟩ := hfixed
  rw [Mutation.validateMetadata, MutationMetadata.validate_eq_ok_iff]
  exact ⟨hnamespace, htenant, htype, hsource, hactor, hlineage, le_rfl, htrust, hclock⟩

variable [Surroundings] [Oplog ω]

/-- An audit record changes neither the indexes nor the containment. -/
lemma persistAuditEvidence_frame (stage tenantId nameSpace : String)
    (writeId : Option String) (d : GovernanceDecision) :
    (st.persistAuditEvidence stage tenantId nameSpace writeId d).2.scopedLatest =
        st.scopedLatest ∧
      (st.persistAuditEvidence stage tenantId nameSpace writeId d).2.scopedWriteIds =
        st.scopedWriteIds ∧
      (st.persistAuditEvidence stage tenantId nameSpace writeId d).2.containment =
        st.containment := by
  simp only [persistAuditEvidence]
  split
  · exact ⟨rfl, rfl, rfl⟩
  · split
    · exact ⟨rfl, rfl, rfl⟩
    · rw [indexMutation_audit _ _ rfl]
      exact ⟨rfl, rfl, rfl⟩

lemma settle_scopedLatest (stage tenantId nameSpace : String)
    (writeId : Option String) (d : GovernanceDecision) :
    (st.settle stage tenantId nameSpace writeId d).scopedLatest = st.scopedLatest :=
  (persistAuditEvidence_frame st stage tenantId nameSpace writeId d).1

lemma settle_scopedWriteIds (stage tenantId nameSpace : String) (writeId : Option String)
    (d : GovernanceDecision) :
    (st.settle stage tenantId nameSpace writeId d).scopedWriteIds = st.scopedWriteIds :=
  (persistAuditEvidence_frame st stage tenantId nameSpace writeId d).2.1

/-- A settled decision changes the containment of its own scope only. -/
lemma settle_containment_of_ne {scope : String × String} {tenantId nameSpace : String}
    (h : scope ≠ (tenantId, nameSpace)) (stage : String) (writeId : Option String)
    (d : GovernanceDecision) :
    (st.settle stage tenantId nameSpace writeId d).containment scope = st.containment scope := by
  obtain ⟨-, -, hcontainment⟩ :=
    persistAuditEvidence_frame st stage tenantId nameSpace writeId d
  simp only [settle, registerDecisionOutcome]
  rw [Function.update_of_ne h, hcontainment]

/-- A decision that is no rejection leaves its scope calm. -/
lemma settle_calm (stage tenantId nameSpace : String) (writeId : Option String)
    {d : GovernanceDecision} (hd : d.decision ≠ .reject) :
    (st.settle stage tenantId nameSpace writeId d).Calm tenantId nameSpace := by
  intro s hs
  simp only [settle, registerDecisionOutcome, Function.update_self, Option.some.injEq] at hs
  rw [← hs, ContainmentState.observeDecision, if_neg hd]

omit st in
/-- A refused mutation is not accepted. -/
lemma pushRefused_accepted {st st' : ServerState ω η} {req : PushRequest} {m : Mutation}
    {crossTenant : Bool} {d : GovernanceDecision} {pushed : Pushed}
    (hout : st.pushRefused req m crossTenant d = (.ok pushed, st')) : pushed.accepted = none := by
  rw [← Except.ok.inj (Prod.mk.inj hout).1]

end
end

/-! ## In-memory logs -/

section
variable {η : Type} {st : ServerState MemLog η}

/-- An in-memory log with room for one more entry takes it. -/
lemma memLog_append {w : MemLog} (hroom : w.entries.length + 1 < 2 ^ 63) (e : OplogEntry) :
    ∃ w', Oplog.append e w = (.ok (w.entries.length + 1), w') ∧
      w'.entries = w.entries ++ [e.withSeq (w.entries.length + 1)] :=
  ⟨_, dif_pos hroom, rfl⟩

variable [Surroundings]

/-- On such a log, a settled decision leaves exactly one audit record. -/
lemma settle_memLog_length [Formatting] {stage tenantId nameSpace : String}
    {writeId : Option String} {d : GovernanceDecision}
    (hroom : st.oplog.entries.length + 1 < 2 ^ 63)
    (hvalid : ∀ n, (auditMutation stage tenantId nameSpace writeId d n
      (Surroundings.auditClock st.tick)).validateMetadata = .ok ()) :
    (st.settle stage tenantId nameSpace writeId d).oplog.entries.length =
      st.oplog.entries.length + 1 := by
  obtain ⟨w', hout, hentries⟩ := memLog_append hroom
    { seq := 0, timestamp := (Surroundings.auditClock st.tick).entryAt
      mutation := auditMutation stage tenantId nameSpace writeId d (st.auditCounter + 1)
        (Surroundings.auditClock st.tick)
      origin := .localWrite, applied := true, snapshotAnchor := none }
  simp only [settle, registerDecisionOutcome_oplog, persistAuditEvidence, hvalid, hout,
    indexMutation_oplog, hentries, List.length_append, List.length_singleton]

/-- A valid mutation with a new write id is stored at the end of such a log. -/
lemma appendMutation_memLog {m : Mutation} {tenantId nameSpace : String}
    (hvalid : m.validateMetadata = .ok ()) (htenant : m.metadata.tenantId = tenantId)
    (hnamespace : m.metadata.nameSpace = nameSpace) (hcollection : m.collection ≠ auditCollection)
    (hnew : st.scopedWriteIds (tenantId, nameSpace, m.writeId) = none)
    (hroom : st.oplog.entries.length + 1 < 2 ^ 63) :
    ∃ e st', st.appendMutation m tenantId nameSpace =
        (.ok (st.oplog.entries.length + 1), st') ∧
      st'.oplog.entries = st.oplog.entries ++ [e] ∧ e.mutation = m ∧
      e.seq = st.oplog.entries.length + 1 ∧ st'.containment = st.containment ∧
      e.seq ≤ st'.scopedLatestCheckpoint tenantId nameSpace := by
  subst htenant hnamespace
  obtain ⟨w', hout, hentries⟩ := memLog_append hroom
    { seq := 0, timestamp := Surroundings.now st.tick, mutation := m, origin := .remote
      applied := false, snapshotAnchor := none }
  have happend : st.appendMutation m m.metadata.tenantId m.metadata.nameSpace =
      (.ok (st.oplog.entries.length + 1),
        { st with oplog := w', tick := st.tick + 1 }.indexMutation
          (st.oplog.entries.length + 1) m) := by
    simp [appendMutation, hvalid, lookupScopedWriteIdSeq, hnew, hout]
  exact ⟨_, _, happend, (congrArg MemLog.entries (indexMutation_oplog _ _ _)).trans hentries, rfl,
    rfl, indexMutation_containment _ _ _, le_scopedLatestCheckpoint_indexMutation _ _ hcollection⟩

end
end ServerState
end Rango
