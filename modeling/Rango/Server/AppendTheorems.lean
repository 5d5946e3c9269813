import Rango.Server.StateTheorems

/-!
# What requests append

No request removes or changes an entry of the oplog. `Grows P` says what the pieces of a request
do to the log and its two indexes: each leaves them alone or appends one entry and indexes it,
whose mutation satisfies `P`. A request appends its audit records and those of its mutations that
it admits: valid ones that name its own tenant and namespace and, for a push, that the control
plane lets pass. So does a run of requests.
-/

namespace Rango

/-- The scope that an entry of this mutation belongs to. -/
def scopeOf (m : Mutation) : String × String := (m.metadata.tenantId, m.metadata.nameSpace)

/-- The key that a mutation is recognized by. -/
def writeKey (m : Mutation) : String × String × String :=
  (m.metadata.tenantId, m.metadata.nameSpace, m.writeId)

/-! ## Admitted mutations -/

/-- The checks on a submitted mutation before the control plane's: its metadata is valid and names
the tenant and the namespace of the request. -/
structure Mutation.Fits (m : Mutation) (tenantId nameSpace : String) : Prop where
  valid : m.validateMetadata = .ok ()
  tenantId : m.metadata.tenantId = tenantId
  nameSpace : m.metadata.nameSpace = nameSpace

section
variable {η : Type} [Formatting] (cp : ControlPlane η)

/-- A mutation that a push lets pass, in some state of the hooks. -/
structure PushRequest.Admits (req : PushRequest) (m : Mutation) : Prop
    extends m.Fits req.tenantId req.nameSpace where
  allowed : ∃ hooks, ControlPlane.isReject (pushDecision cp req m hooks).1 = false

/-- A promotion whose mutation a server in this state has to store. -/
structure PromoteRequest.Admits {ω : Type} [Surroundings] (st : ServerState ω η)
    (req : PromoteRequest) : Prop extends req.mutation.Fits req.tenantId req.nameSpace where
  path : ControlPlane.isReject (ControlPlane.validateSemanticPromotion
    (ServerState.promotionRequest req)) = false
  allowed : (st.promotionDecision cp req (ServerState.promotionRequest req)).1.decision = .allow
  new : st.lookupScopedWriteIdSeq req.tenantId req.nameSpace req.mutation.writeId = none

end

namespace ServerState

variable {ω η : Type} [LogOplog ω]

/-! ## Growth of the log -/

/-- Log and indexes are the same. -/
structure SameLog (st st' : ServerState ω η) : Prop where
  entries : toEntries st'.oplog = toEntries st.oplog
  latest : st'.scopedLatest = st.scopedLatest
  writeIds : st'.scopedWriteIds = st.scopedWriteIds

/-- `st'` is `st` with one more entry in the log, indexed. Unless it belongs to the audit
collection, its key was not in the index. -/
structure Appends (st st' : ServerState ω η) (e : OplogEntry) : Prop where
  new : e.mutation.collection ≠ auditCollection → st.scopedWriteIds (writeKey e.mutation) = none
  entries : toEntries st'.oplog = toEntries st.oplog ++ [e]
  latest : st'.scopedLatest = (st.indexMutation e.seq e.mutation).scopedLatest
  writeIds : st'.scopedWriteIds = (st.indexMutation e.seq e.mutation).scopedWriteIds

/-- What the pieces of requests do to the log, one after another. -/
inductive Grows (P : Mutation → Prop) : ServerState ω η → ServerState ω η → Prop where
  | same {st st'} (h : SameLog st st') : Grows P st st'
  | append {st st'} (e : OplogEntry) (hP : P e.mutation) (h : Appends st st' e) : Grows P st st'
  | trans {st st' st''} (h : Grows P st st') (h' : Grows P st' st'') : Grows P st st''

/-- The log of `st'` is that of `st` followed by entries whose mutations satisfy `P`. -/
def Extends (P : Mutation → Prop) (st st' : ServerState ω η) : Prop :=
  ∃ added, toEntries st'.oplog = toEntries st.oplog ++ added ∧ ∀ e ∈ added, P e.mutation

variable {P : Mutation → Prop} {st st' st'' : ServerState ω η}

lemma SameLog.refl (st : ServerState ω η) : SameLog st st := ⟨rfl, rfl, rfl⟩

lemma SameLog.trans (h : SameLog st st') (h' : SameLog st' st'') : SameLog st st'' :=
  ⟨h'.entries.trans h.entries, h'.latest.trans h.latest, h'.writeIds.trans h.writeIds⟩

lemma countNonOwnerRejection_sameLog (st : ServerState ω η) :
    SameLog st st.countNonOwnerRejection := ⟨rfl, rfl, rfl⟩

lemma countCrossTenantRejection_sameLog (st : ServerState ω η) :
    SameLog st st.countCrossTenantRejection := ⟨rfl, rfl, rfl⟩

/-- A piece that starts where log and indexes are those of `st`. -/
lemma Grows.of_sameLog (h : SameLog st st') (h' : Grows P st' st'') : Grows P st st'' :=
  .trans (.same h) h'

/-- A log that is left as it is. -/
lemma Extends.of_entries (h : toEntries st'.oplog = toEntries st.oplog) : Extends P st st' :=
  ⟨[], by rw [h, List.append_nil], by simp⟩

lemma Extends.refl (st : ServerState ω η) : Extends P st st := .of_entries rfl

lemma Extends.trans (h : Extends P st st') (h' : Extends P st' st'') : Extends P st st'' := by
  obtain ⟨added, heq, hall⟩ := h
  obtain ⟨added', heq', hall'⟩ := h'
  refine ⟨added ++ added', by rw [heq', heq, List.append_assoc], ?_⟩
  intro e he
  rcases List.mem_append.mp he with he | he
  · exact hall e he
  · exact hall' e he

/-- The pieces of a request extend the log. -/
lemma Grows.extends (h : Grows P st st') : Extends P st st' := by
  induction h with
  | same h => exact .of_entries h.entries
  | append e hP h => exact ⟨[e], h.entries, by simpa using hP⟩
  | trans _ _ ih ih' => exact ih.trans ih'

/-- An entry of the later log is one of the earlier log or satisfies `P`. -/
lemma Extends.mem (h : Extends P st st') {e : OplogEntry} (he : e ∈ toEntries st'.oplog) :
    e ∈ toEntries st.oplog ∨ P e.mutation := by
  obtain ⟨added, heq, hall⟩ := h
  rw [heq] at he
  exact (List.mem_append.mp he).imp_right (hall e)

/-- Entries stay. -/
lemma Extends.mono (h : Extends P st st') {e : OplogEntry} (he : e ∈ toEntries st.oplog) :
    e ∈ toEntries st'.oplog := by
  obtain ⟨added, heq, -⟩ := h
  rw [heq]
  exact List.mem_append_left _ he

lemma Extends.of_oplog (h : Extends P st st') (heq : st''.oplog = st'.oplog) :
    Extends P st st'' := by
  obtain ⟨added, hadded, hall⟩ := h
  exact ⟨added, by rw [heq, hadded], hall⟩

/-- An appended entry extends the log, and a failed append leaves it. -/
lemma Extends.append {e : OplogEntry} (h : Extends P st st') (he : P e.mutation)
    (heq : st''.oplog = (Oplog.append e st'.oplog).2) : Extends P st st'' := by
  refine h.trans ?_
  rcases happend : Oplog.append e st'.oplog with ⟨err | seq, w⟩
  · refine .of_entries ?_
    rw [heq, happend, LogOplog.append_error _ _ _ _ happend]
  · refine ⟨[e.withSeq seq], ?_, ?_⟩
    · rw [heq, happend, LogOplog.append_ok _ _ _ _ happend]
    · rintro x hx
      rw [List.mem_singleton.mp hx]
      exact he

/-- A failed append leaves the entries. -/
lemma SameLog.append_error {e : OplogEntry} {err : RangoError} {w : ω}
    (hout : Oplog.append e st.oplog = (.error err, w)) (hoplog : st'.oplog = w)
    (latest : st'.scopedLatest = st.scopedLatest)
    (writeIds : st'.scopedWriteIds = st.scopedWriteIds) : SameLog st st' := by
  subst hoplog
  exact ⟨LogOplog.append_error _ _ _ _ hout, latest, writeIds⟩

/-- A successful append and the indexing after it. -/
lemma Appends.append_ok {e : OplogEntry} {seq : ℕ} {w : ω}
    (hnew : e.mutation.collection ≠ auditCollection →
      st.scopedWriteIds (writeKey e.mutation) = none)
    (hout : Oplog.append e st.oplog = (.ok seq, w)) {st₁ : ServerState ω η}
    (hoplog : st₁.oplog = w) (hlatest : st₁.scopedLatest = st.scopedLatest)
    (hwriteIds : st₁.scopedWriteIds = st.scopedWriteIds) :
    Appends st (st₁.indexMutation seq e.mutation) (e.withSeq seq) := by
  obtain ⟨hindex, hindex'⟩ := indexMutation_congr hlatest hwriteIds seq e.mutation
  refine ⟨hnew, ?_, hindex, hindex'⟩
  rw [indexMutation_oplog, hoplog]
  exact LogOplog.append_ok _ _ _ _ hout

/-! ## The pieces of a request -/

section
variable [Formatting] [Surroundings] {tenantId nameSpace : String}

/-- Audit records for a tenant and a namespace satisfy `P`. -/
def AuditsSatisfy (P : Mutation → Prop) (tenantId nameSpace : String) : Prop :=
  ∀ stage writeId d eventNum t, P (auditMutation stage tenantId nameSpace writeId d eventNum t)

/-- `P`, of a mutation with valid metadata. -/
def WhenValid (P : Mutation → Prop) (m : Mutation) : Prop := m.validateMetadata = .ok () → P m

omit [Surroundings] in
lemma auditsSatisfy_type :
    AuditsSatisfy (WhenValid fun m => m.metadata.type = auditType) tenantId nameSpace :=
  fun _ _ _ _ _ _ => rfl

omit [Formatting] in
lemma registerDecisionOutcome_sameLog (st : ServerState ω η) (tenantId nameSpace : String)
    (d : GovernanceDecision) : SameLog st (st.registerDecisionOutcome tenantId nameSpace d) :=
  ⟨rfl, rfl, rfl⟩

lemma persistAuditEvidence_grows (hP : AuditsSatisfy (WhenValid P) tenantId nameSpace)
    (st : ServerState ω η) (stage : String) (writeId : Option String) (d : GovernanceDecision) :
    Grows P st (st.persistAuditEvidence stage tenantId nameSpace writeId d).2 := by
  simp only [persistAuditEvidence]
  split
  · exact .same ⟨rfl, rfl, rfl⟩
  · next hvalid =>
    split
    · next hout => exact .same (.append_error hout rfl rfl rfl)
    · next hout =>
      refine .append _ ?_ (.append_ok (fun h => absurd rfl h) hout rfl rfl rfl)
      exact hP stage writeId d _ _ hvalid

lemma settle_grows (hP : AuditsSatisfy (WhenValid P) tenantId nameSpace) (st : ServerState ω η)
    (stage : String) (writeId : Option String) (d : GovernanceDecision) :
    Grows P st (st.settle stage tenantId nameSpace writeId d) :=
  (persistAuditEvidence_grows hP st stage writeId d).trans
    (.same (registerDecisionOutcome_sameLog _ tenantId nameSpace d))

omit [Formatting] in
/-- A mutation is appended only when it is valid and in the tenant and namespace that its metadata
names. -/
lemma appendMutation_grows {m : Mutation} {st : ServerState ω η}
    (hP : m.Fits tenantId nameSpace →
      st.lookupScopedWriteIdSeq tenantId nameSpace m.writeId = none → P m) :
    Grows P st (st.appendMutation m tenantId nameSpace).2 := by
  simp only [appendMutation]
  split
  · exact .same (.refl st)
  · next hvalid =>
    split_ifs with hscope
    · exact .same (.refl st)
    · rw [not_or, not_not, not_not] at hscope
      split
      · exact .same (.refl st)
      · next hnew =>
        split
        · next hout => exact .same (.append_error hout rfl rfl rfl)
        · next hout =>
          refine .append _ (hP ⟨hvalid, hscope.1, hscope.2⟩ hnew)
            (.append_ok (fun _ => ?_) hout rfl rfl rfl)
          rw [writeKey, hscope.1, hscope.2]
          exact hnew

omit [Formatting] in
/-- What `append_mutation` answers: the number that the key has, or that of a new entry. -/
lemma appendMutation_cases {m : Mutation} {seq : ℕ}
    (h : st.appendMutation m tenantId nameSpace = (.ok seq, st')) :
    (st.scopedWriteIds (writeKey m) = some seq ∧ st' = st) ∨
      (st.scopedWriteIds (writeKey m) = none ∧
        ∃ e, toEntries st'.oplog = toEntries st.oplog ++ [e] ∧ e.mutation = m ∧ e.seq = seq) := by
  simp only [appendMutation] at h
  split at h
  · cases (Prod.mk.inj h).1
  · split_ifs at h with hscope
    · cases (Prod.mk.inj h).1
    · rw [not_or, not_not, not_not] at hscope
      have hkey : st.lookupScopedWriteIdSeq tenantId nameSpace m.writeId =
          st.scopedWriteIds (writeKey m) := by
        rw [lookupScopedWriteIdSeq, writeKey, hscope.1, hscope.2]
      rw [hkey] at h
      split at h
      · next existing hlookup =>
        obtain ⟨hseq, rfl⟩ := Prod.mk.inj h
        exact .inl ⟨by rw [hlookup, Except.ok.inj hseq], rfl⟩
      · next hlookup =>
        split at h
        · cases (Prod.mk.inj h).1
        · next seq' w happend =>
          obtain ⟨hseq, rfl⟩ := Prod.mk.inj h
          have hentries := LogOplog.append_ok _ _ _ _ happend
          exact .inr ⟨hlookup, _, by rw [indexMutation_oplog, hentries], rfl, Except.ok.inj hseq⟩

end

/-! ## Requests -/

section
variable [Formatting] [Surroundings] (cp : ControlPlane η)

omit [Surroundings] in
lemma writeDecision_sameLog (st : ServerState ω η) (req : PushRequest) (m : Mutation) :
    SameLog st (st.writeDecision cp req m).2 := ⟨rfl, rfl, rfl⟩

omit [Formatting] in
lemma readDecision_sameLog (st : ServerState ω η) (req : PullRequest) (readTier : MemoryTier)
    (scopedEntries : List OplogEntry) :
    SameLog st (st.readDecision cp req readTier scopedEntries).2 := ⟨rfl, rfl, rfl⟩

omit [Formatting] in
lemma promotionDecision_sameLog (st : ServerState ω η) (req : PromoteRequest)
    (request : PromotionRequest) : SameLog st (st.promotionDecision cp req request).2 :=
  ⟨rfl, rfl, rfl⟩

lemma pushRefused_grows {req : PushRequest}
    (haudit : AuditsSatisfy (WhenValid P) req.tenantId req.nameSpace) (h : SameLog st st')
    (m : Mutation) (crossTenant : Bool) (d : GovernanceDecision) :
    Grows P st (st'.pushRefused req m crossTenant d).2 :=
  Grows.of_sameLog h (settle_grows haudit st' _ _ d)

lemma pushChecked_grows {req : PushRequest} {m : Mutation}
    (haudit : AuditsSatisfy (WhenValid P) req.tenantId req.nameSpace) (hm : req.Admits cp m → P m)
    (st : ServerState ω η) : Grows P st (st.pushChecked cp req m).2 := by
  have hsame := writeDecision_sameLog cp st req m
  have hdecision : (st.writeDecision cp req m).1 =
      normalizeWriteDecision (pushDecision cp req m st.hooks).1 := rfl
  unfold pushChecked
  cases hdec : st.writeDecision cp req m with
  | mk d st₁ =>
    rw [hdec] at hsame hdecision
    dsimp only at hdecision ⊢
    split_ifs with hreject
    · exact pushRefused_grows haudit hsame m false d
    · rw [hdecision, isReject_normalizeWriteDecision, Bool.not_eq_true] at hreject
      have happend := (Grows.of_sameLog hsame
        (settle_grows haudit st₁ "write" (some m.writeId) d)).trans
          (appendMutation_grows fun hfits _ => hm ⟨hfits, st.hooks, hreject⟩)
      split
      · next hout => rwa [hout] at happend
      · next hout => rwa [hout] at happend

lemma pushMutation_grows {req : PushRequest} {m : Mutation}
    (haudit : AuditsSatisfy (WhenValid P) req.tenantId req.nameSpace) (hm : req.Admits cp m → P m)
    (st : ServerState ω η) : Grows P st (st.pushMutation cp req m).2 := by
  have hsame : SameLog st (st.containmentGate req.tenantId req.nameSpace).2 := ⟨rfl, rfl, rfl⟩
  unfold pushMutation
  split
  · next d st₁ hout =>
    rw [hout] at hsame
    exact pushRefused_grows haudit hsame m false d
  · next st₁ hout =>
    rw [hout] at hsame
    split
    · exact pushRefused_grows haudit hsame m false _
    · split_ifs
      · have hcount := hsame.trans (countCrossTenantRejection_sameLog st₁)
        exact pushRefused_grows haudit hcount m true _
      · exact Grows.of_sameLog hsame (pushChecked_grows cp haudit hm st₁)

lemma pushLoop_grows {req : PushRequest} {ms : List Mutation}
    (haudit : AuditsSatisfy (WhenValid P) req.tenantId req.nameSpace)
    (hms : ∀ m ∈ ms, req.Admits cp m → P m)
    (st : ServerState ω η) : Grows P st (pushLoop cp st req ms).2 := by
  induction ms generalizing st with
  | nil => exact .same (.refl st)
  | cons m rest ih =>
    have hfirst := pushMutation_grows cp haudit (hms m List.mem_cons_self) st
    have hrest := ih fun m hm => hms m (List.mem_cons_of_mem _ hm)
    simp only [pushLoop]
    split
    · next hout => exact congrArg Prod.snd hout ▸ hfirst
    · next st₁ hout =>
      rw [hout] at hfirst
      refine hfirst.trans ?_
      split
      · next hout => exact congrArg Prod.snd hout ▸ hrest st₁
      · next hout => exact congrArg Prod.snd hout ▸ hrest st₁

/-- A push appends mutations of its own list that it admits, and only under a principal of its
tenant. -/
lemma processPush_grows {req : PushRequest} {principal : AuthPrincipal}
    (haudit : AuditsSatisfy (WhenValid P) req.tenantId req.nameSpace)
    (hms : principal.tenantId = req.tenantId → ∀ m ∈ req.mutations, req.Admits cp m → P m)
    (st : ServerState ω η) : Grows P st (st.processPush cp req principal).2 := by
  simp only [processPush]
  split_ifs with hnode htenant
  · exact Grows.of_sameLog (countNonOwnerRejection_sameLog st) (settle_grows haudit ..)
  · exact Grows.of_sameLog (countCrossTenantRejection_sameLog st) (settle_grows haudit ..)
  · have hloop := pushLoop_grows cp haudit (hms (not_not.mp htenant).symm) st
    split
    · next hout => exact congrArg Prod.snd hout ▸ hloop
    · next hout => exact congrArg Prod.snd hout ▸ hloop

lemma pullAnswered_grows {req : PullRequest}
    (haudit : AuditsSatisfy (WhenValid P) req.tenantId req.nameSpace) (h : SameLog st st')
    (d : GovernanceDecision) (mutations : List Mutation) :
    Grows P st (st'.pullAnswered req d mutations).2 :=
  Grows.of_sameLog h (settle_grows haudit st' _ _ d)

/-- A pull appends its audit record. -/
lemma processPull_grows [Arithmetic] {req : PullRequest} {principal : AuthPrincipal}
    (haudit : AuditsSatisfy (WhenValid P) req.tenantId req.nameSpace) (readTier : MemoryTier)
    (st : ServerState ω η) : Grows P st (st.processPull cp req principal readTier).2 := by
  unfold processPull
  split_ifs
  · exact pullAnswered_grows haudit (countCrossTenantRejection_sameLog st) _ _
  · exact pullAnswered_grows haudit (.refl st) _ _
  · split
    · exact .same (.refl st)
    · next scopedEntries _ =>
      have hsame := readDecision_sameLog cp st req readTier scopedEntries
      split
      next d filtered st₁ hout =>
        rw [hout] at hsame
        split_ifs
        · exact pullAnswered_grows haudit hsame _ _
        · exact pullAnswered_grows haudit hsame _ _

lemma promoteRefused_grows {req : PromoteRequest}
    (haudit : AuditsSatisfy (WhenValid P) req.tenantId req.nameSpace) (h : SameLog st st')
    (d : GovernanceDecision) : Grows P st (st'.promoteRefused req d).2 :=
  Grows.of_sameLog h (settle_grows haudit st' _ _ d)

lemma promoteChecked_grows {req : PromoteRequest} {st : ServerState ω η}
    (haudit : AuditsSatisfy (WhenValid P) req.tenantId req.nameSpace)
    (hfits : req.mutation.Fits req.tenantId req.nameSpace)
    (hm : req.Admits cp st → P req.mutation) : Grows P st (st.promoteChecked cp req).2 := by
  have hsame := promotionDecision_sameLog cp st req (promotionRequest req)
  unfold promoteChecked
  dsimp only
  split
  · exact promoteRefused_grows haudit (.refl st) _
  · next hpath =>
    cases hdec : st.promotionDecision cp req (promotionRequest req) with
    | mk d st₁ =>
      rw [hdec] at hsame
      dsimp only
      split_ifs with hallow
      · exact promoteRefused_grows haudit hsame d
      · have hadmits : (st₁.settle "promotion" req.tenantId req.nameSpace
            (some req.mutation.writeId) d).lookupScopedWriteIdSeq req.tenantId req.nameSpace
              req.mutation.writeId = none → req.Admits cp st := by
          intro hnew
          rw [lookupScopedWriteIdSeq, settle_scopedWriteIds, hsame.writeIds] at hnew
          exact ⟨hfits, by simpa using hpath, by rw [hdec]; exact not_not.mp hallow, hnew⟩
        have happend := (Grows.of_sameLog hsame
          (settle_grows haudit st₁ "promotion" (some req.mutation.writeId) d)).trans
            (appendMutation_grows fun _ hnew => hm (hadmits hnew))
        split
        · next hout => rwa [hout] at happend
        · next hout => rwa [hout] at happend

/-- A promotion appends its mutation only if it admits it, and only under a principal of its node
and tenant. -/
lemma processPromote_grows {req : PromoteRequest} {principal : AuthPrincipal}
    {st : ServerState ω η} (haudit : AuditsSatisfy (WhenValid P) req.tenantId req.nameSpace)
    (hm : principal.nodeId = req.nodeId → principal.tenantId = req.tenantId →
      req.Admits cp st → P req.mutation) : Grows P st (st.processPromote cp req principal).2 := by
  unfold processPromote
  split
  · exact promoteRefused_grows haudit (countNonOwnerRejection_sameLog st) _
  · next hnode =>
    split
    · exact promoteRefused_grows haudit (countCrossTenantRejection_sameLog st) _
    · next htenant =>
      split
      · exact promoteRefused_grows haudit (.refl st) _
      · next hvalid =>
        split_ifs with hscope
        · exact promoteRefused_grows haudit (countCrossTenantRejection_sameLog st) _
        · rw [not_or, not_not, not_not] at hscope
          exact promoteChecked_grows cp haudit ⟨hvalid, hscope.1, hscope.2⟩
            (hm (not_not.mp hnode).symm (not_not.mp htenant).symm)

/-- A retrieval request appends its audit record. -/
lemma handleRetrievalRead_grows {req : RetrievalRequest} {principal : AuthPrincipal}
    (haudit : AuditsSatisfy (WhenValid P) req.tenantId req.nameSpace) (st : ServerState ω η) :
    Grows P st (st.handleRetrievalRead req principal).2 := by
  unfold handleRetrievalRead
  split_ifs
  · exact .same (.refl st)
  · exact Grows.of_sameLog (registerDecisionOutcome_sameLog st _ _ _)
      (persistAuditEvidence_grows haudit ..)

end
end ServerState

/-! ## Runs -/

/-- The event submits the mutation for storage, under a principal of the tenant. -/
def ServerEvent.Submits {η : Type} (tenantId : String) (m : Mutation) : ServerEvent η → Prop
  | .push req principal => principal.tenantId = tenantId ∧ m ∈ req.mutations
  | .promote req principal => principal.tenantId = tenantId ∧ m = req.mutation
  | _ => False

/-- The event submits the mutation, under a principal of its tenant, and has it pass the checks
that do not depend on the state: a push those of its loop and the control plane's, a promotion
those of the mutation. -/
def ServerEvent.Admits {η : Type} [Formatting] (cp : ControlPlane η) (m : Mutation) :
    ServerEvent η → Prop
  | .push req principal =>
    principal.tenantId = req.tenantId ∧ m ∈ req.mutations ∧ req.Admits cp m
  | .promote req principal =>
    principal.tenantId = req.tenantId ∧ m = req.mutation ∧ m.Fits req.tenantId req.nameSpace
  | _ => False

lemma ServerEvent.Admits.submits {η : Type} [Formatting] {cp : ControlPlane η} {m : Mutation}
    {ev : ServerEvent η} (h : ev.Admits cp m) :
    ev.Submits m.metadata.tenantId m ∧ m.validateMetadata = .ok () := by
  cases ev with
  | push req principal =>
    obtain ⟨htenant, hmem, hadmits⟩ := h
    exact ⟨⟨htenant.trans hadmits.tenantId.symm, hmem⟩, hadmits.valid⟩
  | promote req principal =>
    obtain ⟨htenant, hm, hfits⟩ := h
    exact ⟨⟨htenant.trans hfits.tenantId.symm, hm⟩, hfits.valid⟩
  | pull | retrieve | restart => exact h.elim

namespace ServerState

section
variable {ω η : Type} [LogOplog ω] [Formatting] [Surroundings] [Arithmetic] (cp : ControlPlane η)
  {P : Mutation → Prop} {st : ServerState ω η}

/-- An event that is no restart appends audit records and mutations that it admits. -/
lemma step_grows {ev : ServerEvent η}
    (haudit : ∀ tenantId nameSpace, AuditsSatisfy (WhenValid P) tenantId nameSpace)
    (hm : ∀ m, ev.Admits cp m → P m) (hev : ∀ hooks, ev ≠ .restart hooks)
    (st : ServerState ω η) : Grows P st (st.step cp ev) := by
  cases ev with
  | push req principal =>
    exact processPush_grows cp (haudit _ _) (fun hp m hmem hadmits => hm m ⟨hp, hmem, hadmits⟩) st
  | pull req principal readTier => exact processPull_grows cp (haudit _ _) readTier st
  | promote req principal =>
    exact processPromote_grows cp (haudit _ _) fun _ hp hadmits =>
      hm req.mutation ⟨hp, rfl, hadmits.toFits⟩
  | retrieve req principal => exact handleRetrievalRead_grows (haudit _ _) st
  | restart hooks => exact absurd rfl (hev hooks)

/-- So does a restart for the log, of which it appends nothing. -/
lemma step_extends {ev : ServerEvent η}
    (haudit : ∀ tenantId nameSpace, AuditsSatisfy (WhenValid P) tenantId nameSpace)
    (hm : ∀ m, ev.Admits cp m → P m) (st : ServerState ω η) :
    Extends P st (st.step cp ev) := by
  by_cases hev : ∃ hooks, ev = .restart hooks
  · obtain ⟨hooks, rfl⟩ := hev
    refine .of_entries ?_
    rw [step, withControlPlane_oplog]
  · exact (step_grows cp haudit hm (fun hooks h => hev ⟨hooks, h⟩) st).extends

/-- **The log only grows**, by valid audit records and by mutations that an event admits. -/
theorem run_extends {events : List (ServerEvent η)}
    (haudit : ∀ tenantId nameSpace, AuditsSatisfy (WhenValid P) tenantId nameSpace)
    (hm : ∀ ev ∈ events, ∀ m, ev.Admits cp m → P m) (st : ServerState ω η) :
    Extends P st (st.run cp events) := by
  induction events generalizing st with
  | nil => exact .refl st
  | cons ev rest ih =>
    have hfirst := step_extends cp haudit (hm ev List.mem_cons_self) st
    exact hfirst.trans (ih (fun ev' hev => hm ev' (List.mem_cons_of_mem _ hev)) (st.step cp ev))

/-- Every entry of a log that was empty at the start has valid metadata. -/
theorem run_valid {oplog : ω} (hempty : toEntries oplog = []) (hooks : η) (tick : ℕ)
    (events : List (ServerEvent η)) {e : OplogEntry}
    (he : e ∈ toEntries ((withControlPlane oplog hooks tick).run cp events).oplog) :
    e.mutation.validateMetadata = .ok () := by
  have hrun : Extends (fun m => m.validateMetadata = .ok ()) (withControlPlane oplog hooks tick)
      ((withControlPlane oplog hooks tick).run cp events) :=
    run_extends cp (fun _ _ _ _ _ _ _ hvalid => hvalid) (fun _ _ _ hm => hm.submits.2) _
  rcases hrun.mem he with he | he
  · rw [withControlPlane_oplog, hempty] at he
    cases he
  · exact he

end
end ServerState
end Rango
