import Rango.Server.AppendTheorems

/-!
# What a pull returns

`process_pull` turns the entries in scope into candidates, has the control plane filter these
and maps them back by identity. `processPull_ok` says how a response comes about,
`selectMutations_eq` what the way through the candidates keeps, and `processPull_default` what
is left of it under the default control plane.
-/

namespace Rango

/-! ## Candidates -/

/-- The identity under which an entry is found again. -/
def entryIdentity (e : OplogEntry) : ℕ × String := (e.seq, e.mutation.writeId)

/-- A candidate carries the identity of its entry. -/
lemma candidateIdentity_add {e : OplogEntry} (hseq : e.seq < 2 ^ 64) {candidate : Document}
    (h : addCandidateIdentity e = some candidate) :
    candidateIdentity candidate = some (entryIdentity e) := by
  obtain ⟨patch, -, rfl⟩ := Option.map_eq_some_iff.mp h
  have hfields : identityWriteIdField ≠ identitySeqField := by decide
  have hround : (((e.seq : ℤ).bmod (2 ^ 64)) % 2 ^ 64).toNat = e.seq := by
    have hmod := Int.bmod_emod (x := (e.seq : ℤ)) (m := 2 ^ 64)
    omega
  simp only [candidateIdentity, Document.getI64, Document.getStr,
    Document.get_insert_of_ne _ _ hfields, Document.get_insert_self, Option.bind_some,
    Option.map_some, entryIdentity, hround]

/-- A loop that counts its keys: a count is positive when it was before or its key occurs. -/
lemma foldl_count_pos {α : Type} [DecidableEq α] (keys : List α) (counts : α → ℕ) (key : α) :
    0 < keys.foldl (fun counts k => Function.update counts k (counts k + 1)) counts key ↔
      0 < counts key ∨ key ∈ keys := by
  induction keys generalizing counts with
  | nil => simp
  | cons k rest ih =>
    rw [List.foldl_cons, ih, List.mem_cons]
    by_cases hk : key = k
    · subst hk
      simp
    · simp [hk]

lemma identityCounts_pos {candidates : List Document} {key : ℕ × String} :
    0 < identityCounts candidates key ↔ key ∈ candidates.filterMap candidateIdentity := by
  simp [identityCounts, foldl_count_pos]

/-- Every candidate made from the entries is counted. -/
lemma identityCounts_candidates {es : List OplogEntry} (hseq : ∀ e ∈ es, e.seq < 2 ^ 64)
    {e : OplogEntry} (he : e ∈ es) (hpatch : e.mutation.patch ≠ none) :
    0 < identityCounts (es.filterMap addCandidateIdentity) (entryIdentity e) := by
  obtain ⟨patch, hpatch⟩ := Option.ne_none_iff_exists'.mp hpatch
  obtain ⟨candidate, hadd⟩ : ∃ candidate, addCandidateIdentity e = some candidate :=
    ⟨_, by rw [addCandidateIdentity, hpatch, Option.map_some]⟩
  rw [identityCounts_pos, List.mem_filterMap]
  exact ⟨candidate, List.mem_filterMap.mpr ⟨e, he, hadd⟩, candidateIdentity_add (hseq e he) hadd⟩

/-! ## Selection -/

@[simp] lemma annotateMutationForReadTier_metadata (m : Mutation) (tier : MemoryTier) :
    (annotateMutationForReadTier m tier).metadata = m.metadata := by
  unfold annotateMutationForReadTier
  split_ifs <;> rfl

@[simp] lemma annotateMutationForReadTier_patch (m : Mutation) (tier : MemoryTier) :
    (annotateMutationForReadTier m tier).patch = none ↔ m.patch = none := by
  unfold annotateMutationForReadTier
  split_ifs <;> simp

@[simp] lemma annotateMutationForReadTier_state (m : Mutation) :
    annotateMutationForReadTier m .state = m := rfl

/-- Whatever the counts, a selected mutation is that of an entry with a patch. -/
lemma mem_selectMutations {tier : MemoryTier} {counts : ℕ × String → ℕ} {es : List OplogEntry}
    {x : Mutation} (h : x ∈ selectMutations tier counts es) :
    ∃ e ∈ es, e.mutation.patch ≠ none ∧ x = annotateMutationForReadTier e.mutation tier := by
  induction es generalizing counts with
  | nil => simp [selectMutations] at h
  | cons e rest ih =>
    have hrest : ∀ {counts}, x ∈ selectMutations tier counts rest → ∃ e' ∈ e :: rest,
        e'.mutation.patch ≠ none ∧ x = annotateMutationForReadTier e'.mutation tier := fun h =>
      let ⟨e', he', hx⟩ := ih h
      ⟨e', List.mem_cons_of_mem _ he', hx⟩
    simp only [selectMutations] at h
    split_ifs at h with hpatch hcount
    · exact hrest h
    · rcases List.mem_cons.mp h with rfl | h
      · exact ⟨e, List.mem_cons_self, hpatch, rfl⟩
      · exact hrest h
    · exact hrest h

/-- The entry has a patch and its identity is counted. -/
def selectable (counts : ℕ × String → ℕ) (e : OplogEntry) : Bool :=
  e.mutation.patch ≠ none && 0 < counts (entryIdentity e)

/-- **Selection.** Among entries with increasing numbers, the selected mutations are those of
the entries with a patch whose identity is counted, in order. -/
theorem selectMutations_eq {es : List OplogEntry}
    (h : es.Pairwise fun a b => a.seq < b.seq) (tier : MemoryTier) (counts : ℕ × String → ℕ) :
    selectMutations tier counts es = (es.filter (selectable counts)).map
      fun e => annotateMutationForReadTier e.mutation tier := by
  induction es generalizing counts with
  | nil => rfl
  | cons e rest ih =>
    obtain ⟨hfirst, hrest⟩ := List.pairwise_cons.mp h
    -- taking from the count of `e` does not affect the later entries, whose numbers differ
    have hlater : ∀ n, rest.filter (selectable (Function.update counts (entryIdentity e) n)) =
        rest.filter (selectable counts) := by
      intro n
      refine List.filter_congr fun e' he' => ?_
      have hne : entryIdentity e' ≠ entryIdentity e := fun heq =>
        (hfirst e' he').ne' (congrArg Prod.fst heq)
      rw [selectable, selectable, Function.update_of_ne hne]
    simp only [selectMutations]
    split_ifs with hpatch hcount
    · rw [ih hrest, List.filter_cons_of_neg (by simp [selectable, hpatch])]
    · have hselect : selectable counts e = true := by
        simpa only [selectable, Bool.and_eq_true, decide_eq_true_eq] using ⟨hpatch, hcount⟩
      rw [ih hrest, List.filter_cons_of_pos hselect, List.map_cons]
      exact congrArg _ (congrArg _ (hlater _))
    · have hselect : ¬ selectable counts e = true := by
        simpa only [selectable, Bool.and_eq_true, decide_eq_true_eq] using fun h => hcount h.2
      rw [ih hrest, List.filter_cons_of_neg hselect]

/-! ## Responses -/

namespace ServerState

section
variable {ω η : Type} [Formatting] [Surroundings] [Oplog ω]

lemma pullAnswered_state (st : ServerState ω η) (req : PullRequest) (d : GovernanceDecision)
    (mutations : List Mutation) : (st.pullAnswered req d mutations).2 =
      st.settle "read" req.tenantId req.nameSpace none d := rfl

/-- **How a response comes about.** A pull is refused, or it returns what the selection takes
from the page for a principal with the node and the tenant of the request. -/
theorem processPull_ok [Arithmetic] {cp : ControlPlane η} {st st' : ServerState ω η}
    {req : PullRequest} {principal : AuthPrincipal} {readTier : MemoryTier} {resp : PullResponse}
    (h : st.processPull cp req principal readTier = (.ok resp, st')) :
    (∃ d, ControlPlane.isReject d = true ∧ resp.audit = [d] ∧ resp.mutations = []) ∨
      ∃ scopedEntries d filtered st₁,
        principal.nodeId = req.nodeId ∧ principal.tenantId = req.tenantId ∧
        st.pullScoped req readTier = .ok scopedEntries ∧
        st.readDecision cp req readTier scopedEntries = ((d, filtered), st₁) ∧
        ControlPlane.isReject d = false ∧ resp.audit = [d] ∧
        resp.newCheckpoint = st.scopedLatestCheckpoint req.tenantId req.nameSpace ∧
        resp.mutations =
          selectMutations readTier (identityCounts filtered) scopedEntries := by
  have hrefused : ∀ (st₁ : ServerState ω η) d, ControlPlane.isReject d = true →
      st₁.pullAnswered req d [] = (.ok resp, st') →
      ∃ d, ControlPlane.isReject d = true ∧ resp.audit = [d] ∧ resp.mutations = [] := by
    intro st₁ d hd h
    obtain rfl := Except.ok.inj (Prod.mk.inj h).1
    exact ⟨d, hd, rfl, rfl⟩
  unfold processPull at h
  split at h
  · split_ifs at h
    · exact .inl (hrefused _ _ rfl h)
    · exact .inl (hrefused _ _ rfl h)
  · next hprincipal =>
    rw [not_or, not_not, not_not] at hprincipal
    cases hscoped : st.pullScoped req readTier with
    | error fault => simp [hscoped] at h
    | ok scopedEntries =>
      cases hdec : st.readDecision cp req readTier scopedEntries with
      | mk r st₁ =>
        obtain ⟨d, filtered⟩ := r
        have hlatest : st₁.scopedLatest = st.scopedLatest :=
          congrArg (fun r => r.2.scopedLatest) hdec.symm
        simp only [hscoped, hdec] at h
        split_ifs at h with hd
        · exact .inl (hrefused _ _ hd h)
        · obtain rfl := Except.ok.inj (Prod.mk.inj h).1
          refine .inr ⟨scopedEntries, d, filtered, st₁, hprincipal.1, hprincipal.2, rfl, hdec,
            Bool.eq_false_of_not_eq_true hd, rfl, ?_, rfl⟩
          exact scopedLatestCheckpoint_congr ((settle_scopedLatest _ _ _ _ _ _).trans hlatest) _ _

end

/-- An entry in scope is of the request's tenant and namespace and not an audit record. -/
lemma scope_of_inPullScope {req : PullRequest} {readTier : MemoryTier} {e : OplogEntry}
    (h : inPullScope req readTier e = true) :
    e.mutation.metadata.tenantId = req.tenantId ∧ e.mutation.metadata.nameSpace = req.nameSpace ∧
      e.mutation.metadata.type ≠ auditType := by
  simp only [inPullScope, Bool.and_eq_true, decide_eq_true_eq] at h
  exact ⟨h.1.1.1, h.1.1.2, h.1.2⟩

section
variable {ω η : Type} [Formatting] [Surroundings] [LogOplog ω] [Arithmetic]

omit [Formatting] [Surroundings] in
/-- What a pull reads is a stretch of the log, in scope. -/
lemma pullScoped_ok {st : ServerState ω η} {req : PullRequest} {readTier : MemoryTier}
    {scopedEntries : List OplogEntry} (h : st.pullScoped req readTier = .ok scopedEntries) :
    ∃ first, afterCheckpoint req.sinceCheckpoint = .ok first ∧
      scopedEntries = (entriesSince (toEntries st.oplog) first pageLimit).filter
        (inPullScope req readTier) := by
  unfold pullScoped at h
  split at h
  · cases h
  · next first hfirst =>
    split at h
    · cases h
    · next entries hread =>
      refine ⟨first, hfirst, ?_⟩
      rw [← LogOplog.readSince_ok _ _ _ _ (by decide) hread]
      exact (Except.ok.inj h).symm

/-- **Every returned mutation is a stored one in scope**, whatever the control plane does: that
of an entry with a patch, annotated for the tier. -/
theorem mem_processPull {cp : ControlPlane η} {st st' : ServerState ω η} {req : PullRequest}
    {principal : AuthPrincipal} {readTier : MemoryTier} {resp : PullResponse}
    (h : st.processPull cp req principal readTier = (.ok resp, st')) {m : Mutation}
    (hm : m ∈ resp.mutations) :
    principal.tenantId = req.tenantId ∧
      ∃ e ∈ toEntries st.oplog, inPullScope req readTier e = true ∧ e.mutation.patch ≠ none ∧
        m = annotateMutationForReadTier e.mutation readTier := by
  rcases processPull_ok h with ⟨d, -, -, hnone⟩ |
    ⟨scopedEntries, d, filtered, st₁, -, htenant, hscoped, -, -, -, -, hsel⟩
  · simp [hnone] at hm
  · rw [hsel] at hm
    obtain ⟨e, he, hpatch, rfl⟩ := mem_selectMutations hm
    obtain ⟨first, -, rfl⟩ := pullScoped_ok hscoped
    obtain ⟨hpage, hscope⟩ := List.mem_filter.mp he
    exact ⟨htenant, e, List.mem_of_mem_filter (List.mem_of_mem_take hpage), hscope, hpatch, rfl⟩

end

section
variable {ω η : Type}

/-- What the bounded-context hook returns in a pull that read these entries. -/
def keptCandidates (cp : ControlPlane η) (st : ServerState ω η) (req : PullRequest)
    (readTier : MemoryTier) (scopedEntries : List OplogEntry) : List Document :=
  let request : ReadRequest :=
    { tenantId := req.tenantId, nameSpace := req.nameSpace, tier := readTier, limit := pageLimit }
  let (retrieval, hooks) := cp.allowRetrieval request st.hooks
  (cp.boundedContext request (scopedEntries.filterMap addCandidateIdentity)
    (cp.signal "read.gate" retrieval hooks)).1

/-- A pull that the control plane and containment let through filters by what the hook returned,
cut to the limit of the page. -/
lemma readDecision_kept [Surroundings] {cp : ControlPlane η} {st st₁ : ServerState ω η}
    {req : PullRequest} {readTier : MemoryTier} {es : List OplogEntry} {d : GovernanceDecision}
    {filtered : List Document} (h : st.readDecision cp req readTier es = ((d, filtered), st₁))
    (hd : ControlPlane.isReject d = false) :
    filtered = (st.keptCandidates cp req readTier es).take pageLimit := by
  obtain rfl := congrArg (fun r => r.1.2) h
  have hdecision := congrArg (fun r => r.1.1) h
  simp only [readDecision] at hdecision
  generalize hread : cp.readPath _ _ _ = read at hdecision
  cases hgate : ((st.withHooks read.2).containmentGate req.tenantId req.nameSpace).1 with
  | some c =>
    simp only [hgate, Option.getD_some] at hdecision
    simp [hdecision ▸ containmentGate_reject hgate] at hd
  | none =>
    simp only [hgate, Option.getD_none] at hdecision
    exact ControlPlane.readPath_kept (by rw [hread, hdecision, hd])

end

section
variable {ω : Type} [Surroundings]

/-- A pull that the default control plane and containment let through keeps its candidates. -/
lemma readDecision_default {st st₁ : ServerState ω Unit} {req : PullRequest}
    {readTier : MemoryTier} {es : List OplogEntry} {d : GovernanceDecision}
    {filtered : List Document}
    (h : st.readDecision ControlPlane.default req readTier es = ((d, filtered), st₁))
    (hd : ControlPlane.isReject d = false) :
    filtered = (es.filterMap addCandidateIdentity).take pageLimit :=
  readDecision_kept h hd

variable [Formatting] [LogOplog ω] [Arithmetic]

omit [Formatting] [Arithmetic] [LogOplog ω] [Surroundings] in
lemma selectMutations_candidates {es : List OplogEntry}
    (h : es.Pairwise fun a b => a.seq < b.seq) (hseq : ∀ e ∈ es, e.seq < 2 ^ 64)
    (tier : MemoryTier) :
    selectMutations tier (identityCounts (es.filterMap addCandidateIdentity)) es =
      (es.filter fun e => e.mutation.patch ≠ none).map
        fun e => annotateMutationForReadTier e.mutation tier := by
  rw [selectMutations_eq h]
  refine congrArg _ (List.filter_congr fun e he => ?_)
  by_cases hpatch : e.mutation.patch = none
  · simp [selectable, hpatch]
  · simp [selectable, hpatch, identityCounts_candidates hseq he hpatch]

/-- **Pulls under the default control plane.** A pull that is not refused returns the mutations
of all entries with a patch among those it read. -/
theorem processPull_default {st st' : ServerState ω Unit} {req : PullRequest}
    {principal : AuthPrincipal} {readTier : MemoryTier} {resp : PullResponse}
    (h : st.processPull ControlPlane.default req principal readTier = (.ok resp, st'))
    (hallowed : ∀ d ∈ resp.audit, ControlPlane.isReject d = false) :
    resp.newCheckpoint = st.scopedLatestCheckpoint req.tenantId req.nameSpace ∧
      ∃ first, afterCheckpoint req.sinceCheckpoint = .ok first ∧
        resp.mutations =
          (((entriesSince (toEntries st.oplog) first pageLimit).filter
            (inPullScope req readTier)).filter fun e => e.mutation.patch ≠ none).map
              fun e => annotateMutationForReadTier e.mutation readTier := by
  rcases processPull_ok h with ⟨d, hd, haudit, -⟩ |
    ⟨scopedEntries, d, filtered, st₁, -, -, hscoped, hdec, hd, -, hcheckpoint, hsel⟩
  · simp [hallowed d (haudit ▸ List.mem_singleton_self d)] at hd
  · obtain ⟨first, hfirst, rfl⟩ := pullScoped_ok hscoped
    refine ⟨hcheckpoint, first, hfirst, ?_⟩
    have hsub := (List.filter_sublist (p := inPullScope req readTier)
      (l := entriesSince (toEntries st.oplog) first pageLimit)).trans
        ((List.take_sublist _ _).trans List.filter_sublist)
    have hfiltered := readDecision_default hdec hd
    rw [List.take_of_length_le] at hfiltered
    · rw [hsel, hfiltered]
      exact selectMutations_candidates ((LogOplog.increasing st.oplog).sublist hsub)
        (fun e he => (LogOplog.seq_range st.oplog e (hsub.subset he)).2) readTier
    · -- the page has no more entries than the control plane is asked to keep
      calc _ ≤ _ := List.length_filterMap_le _ _
        _ ≤ _ := List.length_filter_le _ _
        _ ≤ pageLimit := List.length_take_le _ _

end

/-! ## Answers -/

section
variable {ω : Type} [Formatting] [Surroundings] [Oplog ω] [Arithmetic]

/-- **Pulls are answered.** Under the default control plane, a pull of a calm scope by a node of
its tenant is allowed whenever the log can be read. -/
theorem processPull_calm {st : ServerState ω Unit} {req : PullRequest}
    {principal : AuthPrincipal} {readTier : MemoryTier} {scopedEntries : List OplogEntry}
    (hnode : principal.nodeId = req.nodeId) (hprincipal : principal.tenantId = req.tenantId)
    (hscoped : st.pullScoped req readTier = .ok scopedEntries)
    (hcalm : st.Calm req.tenantId req.nameSpace) (htenant : req.tenantId ≠ "")
    (hnamespace : req.nameSpace ≠ "") :
    ∃ resp st', st.processPull ControlPlane.default req principal readTier = (.ok resp, st') ∧
      resp.audit = [⟨.allow, "retrieval_allowed"⟩] := by
  have hread : (st.readDecision ControlPlane.default req readTier scopedEntries).1.1 =
      ⟨.allow, "retrieval_allowed"⟩ := by
    have hgate : ((st.withHooks ()).containmentGate req.tenantId req.nameSpace).1 = none :=
      Calm.containmentGate hcalm
    simp [readDecision, ControlPlane.readPath, ControlPlane.validateReadRequest, htenant,
      hnamespace, pageLimit, ControlPlane.default, ControlPlane.isReject, hgate]
  rcases hdec : st.readDecision ControlPlane.default req readTier scopedEntries with
    ⟨⟨d, filtered⟩, st₁⟩
  rw [hdec] at hread
  obtain rfl := hread
  have hpull : st.processPull ControlPlane.default req principal readTier =
      st₁.pullAnswered req ⟨.allow, "retrieval_allowed"⟩
        (selectMutations readTier (identityCounts filtered) scopedEntries) := by
    rw [processPull, if_neg (by simp [hnode, hprincipal])]
    simp [hscoped, hdec, ControlPlane.isReject]
  exact ⟨_, _, hpull, rfl⟩

end

/-- An in-memory log can always be read. -/
lemma pullScoped_memLog {η : Type} [Arithmetic] (st : ServerState MemLog η) {req : PullRequest}
    (hsince : req.sinceCheckpoint + 1 < 2 ^ 64) (readTier : MemoryTier) :
    st.pullScoped req readTier =
      .ok ((entriesSince st.oplog.entries (req.sinceCheckpoint + 1) pageLimit).filter
        (inPullScope req readTier)) := by
  rw [pullScoped, afterCheckpoint, if_pos hsince]
  rfl

end ServerState
end Rango
