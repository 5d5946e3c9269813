import Rango.Server.DeliveryTheorems
import Rango.Server.CrossTenantTheorems

/-!
# Which entries a pull returns

The bounded-context hook sees the candidates of a page and returns some of them, in any order.
`processPull_selects` says that the response is the page cut to the entries whose candidates came
back: a candidate names its entry, so equal payloads are not mixed up, and what a payload holds
under the two identity fields is overwritten. The page itself starts behind the checkpoint of the
request unless that is the last number there is (`pull_after_iff`).
-/

namespace Rango

/-- The hook returns candidates that it was given, each at most as often, in any order. -/
def ControlPlane.BoundsContext {η : Type} (cp : ControlPlane η) : Prop :=
  ∀ request candidates hooks, (cp.boundedContext request candidates hooks).1.Subperm candidates

/-! ## Candidates of a page -/

/-- The number of an entry tells it apart from the other entries of a page. -/
lemma eq_of_seq {es : List OplogEntry} (h : es.Pairwise fun a b => a.seq < b.seq)
    {e e' : OplogEntry} (he : e ∈ es) (he' : e' ∈ es) (hseq : e.seq = e'.seq) : e = e' := by
  have hnodup : (es.map OplogEntry.seq).Nodup :=
    List.pairwise_map.mpr (h.imp fun hlt => Nat.ne_of_lt hlt)
  exact List.inj_on_of_nodup_map hnodup he he' hseq

/-- Among candidates of the entries, the identity of an entry is counted exactly when its own
candidate is there. -/
lemma identityCounts_kept {es : List OplogEntry} (h : es.Pairwise fun a b => a.seq < b.seq)
    (hseq : ∀ e ∈ es, e.seq < 2 ^ 64) {kept : List Document}
    (hkept : ∀ candidate ∈ kept, candidate ∈ es.filterMap addCandidateIdentity)
    {e : OplogEntry} (he : e ∈ es) :
    0 < identityCounts kept (entryIdentity e) ↔
      ∃ candidate ∈ kept, addCandidateIdentity e = some candidate := by
  rw [identityCounts_pos, List.mem_filterMap]
  constructor
  · intro ⟨candidate, hmem, hidentity⟩
    obtain ⟨e', he', hadd⟩ := List.mem_filterMap.mp (hkept candidate hmem)
    have hsame : entryIdentity e' = entryIdentity e :=
      Option.some.inj ((candidateIdentity_add (hseq e' he') hadd).symm.trans hidentity)
    have heq : e' = e := eq_of_seq h he' he (congrArg Prod.fst hsame)
    exact ⟨candidate, hmem, heq ▸ hadd⟩
  · intro ⟨candidate, hmem, hadd⟩
    exact ⟨candidate, hmem, candidateIdentity_add (hseq e he) hadd⟩

namespace ServerState

/-! ## Selection -/

/-- The candidate of the entry is among the kept ones. -/
def keeps (kept : List Document) (e : OplogEntry) : Bool :=
  kept.any fun candidate => addCandidateIdentity e = some candidate

lemma keeps_iff {kept : List Document} {e : OplogEntry} :
    keeps kept e = true ↔ ∃ candidate ∈ kept, addCandidateIdentity e = some candidate := by
  simp [keeps]

section
variable {ω η : Type} [Formatting] [Surroundings] [Arithmetic] [LogOplog ω]

omit [Formatting] [Surroundings] in
/-- What a pull reads is in log order. -/
lemma pullScoped_sublist {st : ServerState ω η} {req : PullRequest} {readTier : MemoryTier}
    {scopedEntries : List OplogEntry} (h : st.pullScoped req readTier = .ok scopedEntries) :
    scopedEntries.Sublist (toEntries st.oplog) ∧ scopedEntries.length ≤ pageLimit := by
  obtain ⟨first, -, rfl⟩ := pullScoped_ok h
  constructor
  · exact List.filter_sublist.trans ((List.take_sublist _ _).trans List.filter_sublist)
  · exact (List.length_filter_le _ _).trans (List.length_take_le _ _)

/-- **Selection is by identity.** A pull that is allowed, under a hook that returns candidates of
those it was given, returns the mutations of the entries it read whose candidates the hook kept.
The entries are told apart by their numbers and stand in log order, so each is returned once. -/
theorem processPull_selects {cp : ControlPlane η} (hhook : cp.BoundsContext)
    {st st' : ServerState ω η} {req : PullRequest} {principal : AuthPrincipal}
    {readTier : MemoryTier} {resp : PullResponse}
    (h : st.processPull cp req principal readTier = (.ok resp, st'))
    (hallowed : ∀ d ∈ resp.audit, ControlPlane.isReject d = false) :
    ∃ scopedEntries, st.pullScoped req readTier = .ok scopedEntries ∧
      scopedEntries.Sublist (toEntries st.oplog) ∧
      (scopedEntries.Pairwise fun a b => a.seq < b.seq) ∧
      resp.mutations =
        (scopedEntries.filter (keeps (st.keptCandidates cp req readTier scopedEntries))).map
          (fun e => annotateMutationForReadTier e.mutation readTier) ∧
      (readTier ≠ .semantic → resp.mutations =
        (scopedEntries.filter (keeps (st.keptCandidates cp req readTier scopedEntries))).map
          OplogEntry.mutation) := by
  rcases processPull_ok h with ⟨d, hd, haudit, -⟩ |
    ⟨scopedEntries, d, filtered, st₁, -, -, hscoped, hdec, hd, -, -, hsel⟩
  · simp [hallowed d (haudit ▸ List.mem_singleton_self d)] at hd
  obtain ⟨hsub, hlength⟩ := pullScoped_sublist hscoped
  have hinc := (LogOplog.increasing st.oplog).sublist hsub
  have hseq : ∀ e ∈ scopedEntries, e.seq < 2 ^ 64 := fun e he =>
    (LogOplog.seq_range st.oplog e (hsub.subset he)).2
  have hsubperm : (st.keptCandidates cp req readTier scopedEntries).Subperm
      (scopedEntries.filterMap addCandidateIdentity) := hhook _ _ _
  -- the page has no more entries than the control plane is asked to keep
  have hfiltered : filtered = st.keptCandidates cp req readTier scopedEntries := by
    rw [readDecision_kept hdec hd]
    apply List.take_of_length_le
    exact hsubperm.length_le.trans ((List.length_filterMap_le _ _).trans hlength)
  have hmutations : resp.mutations =
      (scopedEntries.filter (keeps (st.keptCandidates cp req readTier scopedEntries))).map
        fun e => annotateMutationForReadTier e.mutation readTier := by
    rw [hsel, hfiltered, selectMutations_eq hinc]
    refine congrArg _ (List.filter_congr fun e he => ?_)
    have hkept := identityCounts_kept hinc hseq (fun candidate hc => hsubperm.subset hc) he
    rw [Bool.eq_iff_iff, keeps_iff, ← hkept, selectable, Bool.and_eq_true, decide_eq_true_eq,
      decide_eq_true_eq, and_iff_right_iff_imp]
    intro hpos hnone
    obtain ⟨candidate, -, hadd⟩ := hkept.mp hpos
    simp [addCandidateIdentity, hnone] at hadd
  refine ⟨scopedEntries, hscoped, hsub, hinc, hmutations, fun htier => ?_⟩
  rw [hmutations]
  refine List.map_congr_left fun e _ => ?_
  rw [annotateMutationForReadTier, if_neg htier]

end

/-! ## The checkpoint of the request -/

section
variable {ω η : Type} [Formatting] [Surroundings] [Arithmetic] [LogOplog ω]

/-- The pull does not panic and returns mutations of entries after its checkpoint, each once and
in log order. -/
def PullsAfter (cp : ControlPlane η) (st : ServerState ω η) (req : PullRequest)
    (principal : AuthPrincipal) (readTier : MemoryTier) : Prop :=
  (st.processPull cp req principal readTier).1 ≠ .error .panic ∧
    ∀ resp, (st.processPull cp req principal readTier).1 = .ok resp →
      ∃ es : List OplogEntry, es.Sublist (toEntries st.oplog) ∧
        (∀ e ∈ es, req.sinceCheckpoint < e.seq) ∧
        resp.mutations = es.map fun e => annotateMutationForReadTier e.mutation readTier

omit [Formatting] [Surroundings] in
/-- A pull panics only where the number after its checkpoint does. -/
lemma pullScoped_ne_panic {st : ServerState ω η} {req : PullRequest} (readTier : MemoryTier)
    (h : req.sinceCheckpoint + 1 < 2 ^ 64) : st.pullScoped req readTier ≠ .error .panic := by
  rw [pullScoped, afterCheckpoint, if_pos h]
  dsimp only
  split
  · simp
  · simp

/-- A pull from below the last number returns entries after its checkpoint. -/
lemma pullsAfter_of_lt {cp : ControlPlane η} (st : ServerState ω η) {req : PullRequest}
    (principal : AuthPrincipal) (readTier : MemoryTier) (h : req.sinceCheckpoint + 1 < 2 ^ 64) :
    st.PullsAfter cp req principal readTier := by
  constructor
  · intro hpanic
    have hscoped : st.pullScoped req readTier ≠ .error .panic := pullScoped_ne_panic readTier h
    unfold processPull at hpanic
    split_ifs at hpanic
    · cases hpanic
    · cases hpanic
    · split at hpanic
      · next fault hfault =>
        rw [hfault] at hscoped
        exact hscoped (congrArg _ (Except.error.inj hpanic))
      · dsimp only at hpanic
        split_ifs at hpanic
        · cases hpanic
        · cases hpanic
  · intro resp hresp
    rcases processPull_ok (Prod.fst_eq_iff.mp hresp) with ⟨-, -, -, hnone⟩ |
      ⟨scopedEntries, d, filtered, st₁, -, -, hscoped, -, -, -, -, hsel⟩
    · exact ⟨[], List.nil_sublist _, by simp, hnone⟩
    obtain ⟨hsub, -⟩ := pullScoped_sublist hscoped
    have hinc := (LogOplog.increasing st.oplog).sublist hsub
    refine ⟨_, List.filter_sublist.trans hsub, fun e he => ?_, hsel.trans
      (selectMutations_eq hinc readTier _)⟩
    obtain ⟨first, hfirst, rfl⟩ := pullScoped_ok hscoped
    rw [afterCheckpoint, if_pos h] at hfirst
    have hpage := List.mem_of_mem_take (List.mem_of_mem_filter (List.mem_of_mem_filter he))
    have hle : first ≤ e.seq := of_decide_eq_true (List.mem_filter.mp hpage).2
    have hsucc : req.sinceCheckpoint + 1 = first := Except.ok.inj hfirst
    omega

end

section
variable [Formatting] [Surroundings] [Arithmetic]

/-- The pull of the sample's scope from the last number there is. -/
def lastPull : PullRequest := { samplePull with sinceCheckpoint := 2 ^ 64 - 1 }

omit [Formatting] [Surroundings] in
/-- Without overflow checks it reads the log from its start. -/
lemma lastPull_wraps (hwrap : Arithmetic.overflowChecks = false) :
    afterCheckpoint lastPull.sinceCheckpoint = .ok 0 := by
  have hover : ¬ lastPull.sinceCheckpoint + 1 < 2 ^ 64 := by decide
  rw [afterCheckpoint, if_neg hover, if_neg (by simp [hwrap])]
  decide

/-- It panics, or it starts over and returns an entry. -/
lemma lastPull_not_after :
    ¬ sampleTenantServer.PullsAfter ControlPlane.default lastPull samplePrincipal .state := by
  intro ⟨hpanic, hafter⟩
  have hprincipal : ¬ (samplePrincipal.nodeId ≠ lastPull.nodeId ∨
      samplePrincipal.tenantId ≠ lastPull.tenantId) := by decide
  cases hchecks : Arithmetic.overflowChecks with
  | true =>
    apply hpanic
    have hover : ¬ lastPull.sinceCheckpoint + 1 < 2 ^ 64 := by decide
    have hfirst : afterCheckpoint lastPull.sinceCheckpoint = .error .panic := by
      rw [afterCheckpoint, if_neg hover, if_pos hchecks]
    rw [processPull, if_neg hprincipal, pullScoped, hfirst]
  | false =>
    have hfirst := lastPull_wraps hchecks
    have hscoped : sampleTenantServer.pullScoped lastPull .state =
        .ok ((entriesSince sampleTenantLog.entries 0 pageLimit).filter
          (inPullScope lastPull .state)) := by
      rw [pullScoped, hfirst]
      rfl
    have hcalm : sampleTenantServer.Calm "tenant" "c" := by
      intro s hs
      cases hs
    obtain ⟨resp, st', hpull, haudit⟩ :=
      processPull_calm (rfl : samplePrincipal.nodeId = _) rfl hscoped hcalm (by decide)
        (by decide)
    obtain ⟨-, first, hfirst', hmutations⟩ := processPull_default hpull fun d hd => by
      rw [haudit, List.mem_singleton] at hd
      rw [hd]
      rfl
    -- what it returns is not behind the last number, which no entry has
    obtain ⟨es, hsub, hgt, hes⟩ := hafter resp (by rw [hpull])
    have hnone : es = [] := by
      refine List.eq_nil_iff_forall_not_mem.mpr fun e he => ?_
      have hrange := (LogOplog.seq_range _ e (hsub.subset he)).2
      have hlast : lastPull.sinceCheckpoint = 2 ^ 64 - 1 := rfl
      have hafter := hgt e he
      omega
    obtain rfl : 0 = first := Except.ok.inj (hfirst.symm.trans hfirst')
    rw [hnone, hmutations] at hes
    exact absurd hes (by decide)

/-- **When a pull returns what lies after its checkpoint.** On every server, with any log and
hooks, exactly when the checkpoint is not the last `u64`. -/
theorem pull_after_iff {since : ℕ} (hsince : since < 2 ^ 64) :
    (∀ (ω η : Type) [LogOplog ω] (cp : ControlPlane η) (st : ServerState ω η) (req : PullRequest)
      (principal : AuthPrincipal) (readTier : MemoryTier), req.sinceCheckpoint = since →
        st.PullsAfter cp req principal readTier) ↔ since + 1 < 2 ^ 64 := by
  constructor
  · intro h
    by_contra hlast
    have hmax : lastPull.sinceCheckpoint = since := by
      show 2 ^ 64 - 1 = since
      omega
    exact lastPull_not_after (h MemLog Unit .default sampleTenantServer lastPull samplePrincipal
      .state hmax)
  · intro hlt ω η _ cp st req principal readTier hreq
    subst hreq
    exact pullsAfter_of_lt st principal readTier hlt

end
end ServerState

section
attribute [local instance] Formatting.sample Surroundings.sample

/-- Two inserts with one payload, which forges an identity. -/
def sampleEqualPayloads : List Mutation :=
  ["w1", "w2"].map fun writeId => .sample "c" "tenant" "d" .insert
    (some ⟨[("_id", .string "d"), ("__rango_candidate_seq", .int64 9)]⟩) 1 "1-0-aaaa" writeId

/-- A control plane whose bounded-context hook keeps the last candidate. -/
def sampleBounding : ControlPlane Unit :=
  { ControlPlane.default with boundedContext := fun _ candidates _ =>
      (candidates.reverse.take 1, ()) }

lemma sampleBounding_boundsContext : sampleBounding.BoundsContext := by
  intro request candidates hooks
  exact (List.take_sublist _ _).subperm.trans (List.reverse_perm candidates).subperm

section
attribute [local instance] Arithmetic.sample

/-- The server that stored them. -/
def sampleEqualServer : ServerState MemLog Unit :=
  sampleServer.step ControlPlane.default (.push (samplePush sampleEqualPayloads) samplePrincipal)

/-- Of the two, the one whose candidate was kept is pulled. -/
theorem ServerState.processPull_selects_sample :
    ((sampleEqualServer.processPull sampleBounding samplePull samplePrincipal .state).1.map
      PullResponse.mutations) = .ok (sampleEqualPayloads.drop 1) ∧
    ∃ scopedEntries, sampleEqualServer.pullScoped samplePull .state = .ok scopedEntries ∧
      sampleEqualPayloads.drop 1 = (scopedEntries.filter (keeps (sampleEqualServer.keptCandidates
        sampleBounding samplePull .state scopedEntries))).map OplogEntry.mutation := by
  have hpull : (sampleEqualServer.processPull sampleBounding samplePull samplePrincipal .state).1 =
      .ok ⟨sampleEqualPayloads.drop 1, 4, [⟨.allow, "retrieval_allowed"⟩]⟩ := by decide +kernel
  refine ⟨by rw [hpull]; rfl, ?_⟩
  obtain ⟨scopedEntries, hscoped, -, -, -, hkept⟩ := ServerState.processPull_selects
    sampleBounding_boundsContext (Prod.fst_eq_iff.mp hpull) fun d hd => by
      rw [List.mem_singleton] at hd
      rw [hd]
      rfl
  exact ⟨scopedEntries, hscoped, hkept (by decide)⟩

/-- A pull from the first entry on. -/
theorem ServerState.pull_after_iff_sample :
    (∀ (ω η : Type) [LogOplog ω] (cp : ControlPlane η) (st : ServerState ω η) (req : PullRequest)
      (principal : AuthPrincipal) (readTier : MemoryTier), req.sinceCheckpoint = 1 →
        st.PullsAfter cp req principal readTier) ↔ 1 + 1 < 2 ^ 64 :=
  ServerState.pull_after_iff (by decide)

end

/-- The answer to the pull from the last checkpoint, under the arithmetic of a build. -/
def lastPullAnswer (arithmetic : Arithmetic) : Except RequestFault PullResponse :=
  letI := arithmetic
  (sampleTenantServer.processPull ControlPlane.default ServerState.lastPull samplePrincipal
    .state).1

/-- **A pull from the last checkpoint panics or starts over.** A debug build panics, and a release
build returns the first entry. -/
theorem last_checkpoint_starts_over :
    lastPullAnswer ⟨true, fun a _ => a⟩ = .error .panic ∧
      lastPullAnswer ⟨false, fun a _ => a⟩ =
        .ok ⟨[sampleClientInsert], 1, [⟨.allow, "retrieval_allowed"⟩]⟩ ∧
      ∀ e ∈ toEntries sampleTenantServer.oplog, e.seq ≤ ServerState.lastPull.sinceCheckpoint := by
  refine ⟨?_, ?_, ?_⟩ <;> decide +kernel

end
end Rango
