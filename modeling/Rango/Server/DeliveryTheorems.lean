import Rango.Lib.Paging
import Rango.Server.IsolationTheorems
import Rango.Server.AcceptanceTheorems

/-!
# What pulls leave out

A pull reads one page of the whole log, of all tenants and with the audit records, while the
checkpoint it returns comes from the index of its scope: `pull_complete_iff` is exactly when
the page reaches far enough. A mutation without a patch is no candidate, so no pull ever
returns one (`patchless_not_pulled`).
-/

namespace Rango

/-- An entry is read exactly when at most `limit` entries of the log stand between the first
number and it. -/
lemma mem_entriesSince {es : List OplogEntry} (h : es.Pairwise fun a b => a.seq < b.seq)
    {first limit : ℕ} {e : OplogEntry} :
    e ∈ entriesSince es first limit ↔ e ∈ es ∧ first ≤ e.seq ∧
      es.countP (fun x => first ≤ x.seq ∧ x.seq ≤ e.seq) ≤ limit := by
  have hpage := h.sublist (List.filter_sublist (p := fun x : OplogEntry => first ≤ x.seq))
  rw [entriesSince, Paging.mem_take_iff (f := OplogEntry.seq) hpage, List.mem_filter,
    List.countP_filter, decide_eq_true_eq, and_assoc]
  simp only [Bool.decide_and, Bool.and_comm]

namespace ServerState

/-- The entries that a State-tier pull up to a checkpoint stands for. -/
structure Due (req : PullRequest) (checkpoint : ℕ) (e : OplogEntry) : Prop where
  tenantId : e.mutation.metadata.tenantId = req.tenantId
  nameSpace : e.mutation.metadata.nameSpace = req.nameSpace
  patch : e.mutation.patch ≠ none
  notAudit : e.mutation.metadata.type ≠ auditType
  notSemantic : e.mutation.metadata.type ≠ "semantic_projection"
  after : req.sinceCheckpoint < e.seq
  upTo : e.seq ≤ checkpoint

/-- The entry is on the page that a pull reads: it lies after the checkpoint, with at most a
thousand entries of the whole log up to it. -/
def OnPage (req : PullRequest) (log : List OplogEntry) (e : OplogEntry) : Prop :=
  e ∈ log ∧ req.sinceCheckpoint < e.seq ∧
    log.countP (fun x => req.sinceCheckpoint < x.seq ∧ x.seq ≤ e.seq) ≤ pageLimit

section
variable {ω : Type} [LogOplog ω] [Formatting] [Surroundings] [Arithmetic]

omit [Formatting] [Surroundings] in
/-- The page read after a checkpoint below an entry's number. -/
lemma mem_page {w : ω} {req : PullRequest} {first : ℕ}
    (hfirst : afterCheckpoint req.sinceCheckpoint = .ok first) {e e' : OplogEntry}
    (he : e ∈ toEntries w) (hafter : req.sinceCheckpoint < e.seq) :
    e' ∈ entriesSince (toEntries w) first pageLimit ↔ OnPage req (toEntries w) e' := by
  have hsmall := (LogOplog.seq_range w e he).2
  have hsucc : first = req.sinceCheckpoint + 1 := by
    rw [afterCheckpoint, if_pos (by omega)] at hfirst
    exact (Except.ok.inj hfirst).symm
  rw [hsucc, mem_entriesSince (LogOplog.increasing w)]
  rfl

/-- One pull under the default control plane. -/
lemma processPull_complete_iff {st st' : ServerState ω Unit} {req : PullRequest}
    {principal : AuthPrincipal} {resp : PullResponse}
    (h : st.processPull ControlPlane.default req principal .state = (.ok resp, st'))
    (hallowed : ∀ d ∈ resp.audit, d.decision = .allow) :
    (∀ e ∈ toEntries st.oplog, Due req resp.newCheckpoint e → e.mutation ∈ resp.mutations) ↔
      ∀ e ∈ toEntries st.oplog, Due req (st.scopedLatestCheckpoint req.tenantId req.nameSpace) e →
        ∃ e', OnPage req (toEntries st.oplog) e' ∧ e'.mutation = e.mutation := by
  obtain ⟨hcheckpoint, first, hfirst, hmutations⟩ := processPull_default h fun d hd => by
    simp [ControlPlane.isReject, hallowed d hd]
  rw [hcheckpoint]
  refine forall₂_congr fun e he => forall_congr' fun hdue => ?_
  rw [hmutations]
  simp only [List.mem_map, List.mem_filter, annotateMutationForReadTier_state,
    mem_page hfirst he hdue.after]
  constructor
  · rintro ⟨e', ⟨⟨hpage, -⟩, -⟩, heq⟩
    exact ⟨e', hpage, heq⟩
  · rintro ⟨e', hpage, heq⟩
    have hscope : inPullScope req .state e' = true := by
      simp [inPullScope, mutationVisibleForTier, heq, hdue.tenantId, hdue.nameSpace,
        hdue.notAudit, hdue.notSemantic]
    have hpatch : e'.mutation.patch ≠ none := heq ▸ hdue.patch
    exact ⟨e', ⟨⟨hpage, hscope⟩, by simpa using hpatch⟩, heq⟩

/-- **When the checkpoint skips nothing.** In every run under the default control plane, an
allowed State-tier pull returns the mutation of every entry of its scope up to the returned
checkpoint exactly when each of these mutations is that of an entry on the page, that is, of
one with at most a thousand entries of the whole log from the old checkpoint up to it. -/
theorem pull_complete_iff (oplog : ω) (tick : ℕ) (events : List (ServerEvent Unit))
    {req : PullRequest} {principal : AuthPrincipal} {resp : PullResponse}
    {st' : ServerState ω Unit}
    (hpull : ((withControlPlane oplog () tick).run ControlPlane.default events).processPull
      ControlPlane.default req principal .state = (.ok resp, st'))
    (hallowed : ∀ d ∈ resp.audit, d.decision = .allow) :
    (∀ e ∈ toEntries ((withControlPlane oplog () tick).run ControlPlane.default events).oplog,
      Due req resp.newCheckpoint e → e.mutation ∈ resp.mutations) ↔
    ∀ e ∈ toEntries ((withControlPlane oplog () tick).run ControlPlane.default events).oplog,
      Due req (((withControlPlane oplog () tick).run ControlPlane.default
        events).scopedLatestCheckpoint req.tenantId req.nameSpace) e →
      ∃ e', OnPage req
        (toEntries ((withControlPlane oplog () tick).run ControlPlane.default events).oplog) e' ∧
          e'.mutation = e.mutation :=
  processPull_complete_iff hpull hallowed

end
end ServerState

section
attribute [local instance] Formatting.sample Surroundings.sample Arithmetic.sample

/-- Nothing is left out in the first run, whose log has two entries. -/
theorem ServerState.pull_complete_iff_sample :
    (∀ e ∈ toEntries (sampleServer.run ControlPlane.default sampleEvents).oplog,
      Due samplePull 2 e → e.mutation ∈ [sampleClientInsert]) ↔
    ∀ e ∈ toEntries (sampleServer.run ControlPlane.default sampleEvents).oplog,
      Due samplePull ((sampleServer.run ControlPlane.default
        sampleEvents).scopedLatestCheckpoint "tenant" "c") e →
      ∃ e', OnPage samplePull
        (toEntries (sampleServer.run ControlPlane.default sampleEvents).oplog) e' ∧
          e'.mutation = e.mutation := by
  have hpull : ((sampleServer.run ControlPlane.default sampleEvents).processPull
      ControlPlane.default samplePull samplePrincipal .state).1 =
        .ok ⟨[sampleClientInsert], 2, [⟨.allow, "retrieval_allowed"⟩]⟩ := by decide +kernel
  exact ServerState.pull_complete_iff MemLog.new 0 sampleEvents (Prod.fst_eq_iff.mp hpull)
    (by simp)

/-- A node of another tenant, which pulls its own namespace. -/
def otherPrincipal : AuthPrincipal := ⟨"node", "other"⟩
def otherPull : PullRequest := ⟨"node", "other", "c", 0⟩

/-- A server that has answered `n` pulls of the other tenant. -/
def pulledServer (n : ℕ) : ServerState MemLog Unit :=
  sampleServer.run ControlPlane.default (List.replicate n (.pull otherPull otherPrincipal .state))

/-- The same server after a push of one mutation. -/
def crowdedServer : ServerState MemLog Unit :=
  (pulledServer 1000).step ControlPlane.default
    (.push (samplePush [sampleClientInsert]) samplePrincipal)

namespace ServerState

/-- What the other tenant's pulls leave: one audit record each, and nothing in the scope of the
first tenant. -/
structure Crowded (n : ℕ) (st : ServerState MemLog Unit) : Prop where
  length : st.oplog.entries.length = n
  calm : st.containment ("tenant", "c") = none
  new : st.scopedWriteIds ("tenant", "c", "w1") = none

lemma audit_valid (stage : String) {tenantId nameSpace : String} (htenant : tenantId ≠ "")
    (hnamespace : nameSpace ≠ "") (writeId : Option String) (d : GovernanceDecision) (n k : ℕ) :
    (auditMutation stage tenantId nameSpace writeId d n
      (Surroundings.auditClock k)).validateMetadata = .ok () :=
  auditMutation_valid htenant hnamespace rfl le_rfl

lemma settle_crowded {n : ℕ} {st : ServerState MemLog Unit} (h : st.Crowded n) (hn : n < 2000)
    (d : GovernanceDecision) :
    (st.settle "read" otherPull.tenantId otherPull.nameSpace none d).Crowded (n + 1) where
  length := by
    rw [settle_memLog_length, h.length]
    · rw [h.length]
      omega
    · exact fun k => audit_valid _ (by decide) (by decide) _ _ _ _
  calm := (settle_containment_of_ne st (by decide) _ _ _).trans h.calm
  new := (congrFun (settle_scopedWriteIds st _ _ _ _ _) _).trans h.new

lemma readDecision_crowded {n : ℕ} {st : ServerState MemLog Unit} (h : st.Crowded n)
    (es : List OplogEntry) :
    (st.readDecision ControlPlane.default otherPull .state es).2.Crowded n where
  length := h.length
  calm := by
    simp [readDecision, containmentGate, withHooks, otherPull, h.calm]
  new := h.new

lemma pull_crowded {n : ℕ} {st : ServerState MemLog Unit} (h : st.Crowded n) (hn : n < 2000) :
    (st.step ControlPlane.default (.pull otherPull otherPrincipal .state)).Crowded (n + 1) := by
  have hscoped := pullScoped_memLog st (by decide : otherPull.sinceCheckpoint + 1 < 2 ^ 64) .state
  have hread := readDecision_crowded h
    ((entriesSince st.oplog.entries (otherPull.sinceCheckpoint + 1) pageLimit).filter
      (inPullScope otherPull .state))
  simp only [step, processPull, hscoped]
  rw [if_neg (by decide)]
  split_ifs
  · rw [pullAnswered_state]
    exact settle_crowded hread hn _
  · rw [pullAnswered_state]
    exact settle_crowded hread hn _

lemma pulledServer_crowded {n : ℕ} (hn : n ≤ 2000) : (pulledServer n).Crowded n := by
  induction n with
  | zero => exact ⟨rfl, rfl, rfl⟩
  | succ n ih =>
    rw [pulledServer, run, List.replicate_succ', List.foldl_append]
    exact pull_crowded (ih (by omega)) (by omega)

lemma pulledServer_audits (n : ℕ) :
    ∀ e ∈ (pulledServer n).oplog.entries, e.mutation.metadata.type = auditType := by
  intro e he
  rcases run_provenance ControlPlane.default MemLog.toEntries_new () 0
    (List.replicate n (.pull otherPull otherPrincipal .state)) he with haudit | ⟨ev, hev, hsubmits⟩
  · exact haudit
  · rw [List.eq_of_mem_replicate hev] at hsubmits
    exact hsubmits.elim

/-- The push stores its mutation as the last entry, behind its audit record. -/
lemma push_crowded {n : ℕ} {st : ServerState MemLog Unit} (h : st.Crowded n) (hn : n < 2000)
    (haudits : ∀ e ∈ st.oplog.entries, e.mutation.metadata.type = auditType)
    (st' : ServerState MemLog Unit)
    (hst' : st' = st.step ControlPlane.default
      (.push (samplePush [sampleClientInsert]) samplePrincipal)) :
    ∃ audits e, st'.oplog.entries = audits ++ [e] ∧
      (∀ a ∈ audits, a.mutation.metadata.type = auditType) ∧ audits.length = n + 1 ∧
      e.mutation = sampleClientInsert ∧ e.seq = audits.length + 1 ∧
      e.seq ≤ st'.scopedLatestCheckpoint "tenant" "c" ∧ st'.Calm "tenant" "c" := by
  -- the state behind the decision's audit record
  let st₁ := (st.containmentGate "tenant" "c").2.withHooks ()
  let st₂ := st₁.settle "write" "tenant" "c" (some "w1") ⟨.allow, "trust_score:1.00"⟩
  have hroom : st₁.oplog.entries.length + 1 < 2 ^ 63 := by
    have hlength : st₁.oplog.entries.length = n := h.length
    omega
  have hlength : st₂.oplog.entries.length = n + 1 :=
    (settle_memLog_length hroom fun k => audit_valid _ (by decide) (by decide) _ _ _ _).trans
      (congrArg (· + 1) h.length)
  have hextends : Extends (fun m => m.metadata.type = auditType) st st₂ :=
    (settle_grows auditsSatisfy_type st₁ _ _ _).extends
  have hnew : st₂.scopedWriteIds ("tenant", "c", "w1") = none := by
    rw [settle_scopedWriteIds]
    exact h.new
  obtain ⟨e, st₃, hout, hentries, hm, hseq, hcontainment, hlatest⟩ :=
    appendMutation_memLog (by decide : sampleClientInsert.validateMetadata = .ok ())
      (rfl : _ = "tenant") (rfl : _ = "c") (by decide) hnew (by omega)
  have hst₃ : st' = st₃ := by
    have hcalm : st.Calm "tenant" "c" := fun s hs => by simp [h.calm] at hs
    have htakes : Takes ControlPlane.default (samplePush [sampleClientInsert]) st
        sampleClientInsert _ st₃ :=
      { gate := hcalm.containmentGate
        valid := by decide
        tenant := rfl
        nameSpace := rfl
        allowed := rfl
        appended := hout }
    have hpushed := htakes.pushMutation
    rw [hst', step, processPush, if_neg (by decide), if_neg (by decide)]
    simp only [samplePush, pushLoop] at hpushed ⊢
    rw [hpushed]
  rw [hst₃]
  refine ⟨st₂.oplog.entries, e, hentries, fun a ha => ?_, hlength, hm, hseq, hlatest, ?_⟩
  · exact (hextends.mem ha).elim (haudits a) id
  · unfold Calm
    rw [hcontainment]
    exact settle_calm st₁ "write" "tenant" "c" (some "w1") (by decide)

/-- Behind more than a thousand audit records, the last entry is due and not pulled. -/
lemma due_not_pulled {st : ServerState MemLog Unit} {audits : List OplogEntry} {e : OplogEntry}
    (hentries : st.oplog.entries = audits ++ [e])
    (haudits : ∀ a ∈ audits, a.mutation.metadata.type = auditType)
    (hm : e.mutation = sampleClientInsert) (hseq : e.seq = audits.length + 1)
    (hcrowded : 1000 ≤ audits.length) (hlatest : e.seq ≤ st.scopedLatestCheckpoint "tenant" "c")
    (hcalm : st.Calm "tenant" "c") :
    ∃ resp st', st.processPull ControlPlane.default samplePull samplePrincipal .state =
        (.ok resp, st') ∧ (∀ d ∈ resp.audit, d.decision = .allow) ∧
      ∃ e ∈ toEntries st.oplog, Due samplePull resp.newCheckpoint e ∧
        e.mutation ∉ resp.mutations := by
  obtain ⟨resp, st', hpull, haudit⟩ := processPull_calm (rfl : samplePrincipal.nodeId = _) rfl
    (pullScoped_memLog st (by decide : samplePull.sinceCheckpoint + 1 < 2 ^ 64) .state) hcalm
    (by decide) (by decide)
  have hallowed : ∀ d ∈ resp.audit, d.decision = .allow := by simp [haudit]
  have he : e ∈ st.oplog.entries := by simp [hentries]
  obtain ⟨hcheckpoint, first, hfirst, hmutations⟩ := processPull_default hpull fun d hd => by
    simp [ControlPlane.isReject, hallowed d hd]
  refine ⟨resp, st', hpull, hallowed, e, he, ?_, fun hmem => ?_⟩
  · rw [hcheckpoint]
    exact ⟨by rw [hm]; rfl, by rw [hm]; rfl, by rw [hm]; decide, by rw [hm]; decide,
      by rw [hm]; decide, by rw [hseq]; exact Nat.succ_pos _, hlatest⟩
  · -- only `e` has this mutation, and more than a page of entries stand up to it
    rw [hmutations] at hmem
    simp only [List.mem_map, List.mem_filter, annotateMutationForReadTier_state,
      mem_page (w := st.oplog) hfirst he (by rw [hseq]; exact Nat.succ_pos _)] at hmem
    obtain ⟨e', ⟨⟨⟨he', -, hcount⟩, -⟩, -⟩, heq⟩ := hmem
    obtain rfl : e' = e := by
      have he' : e' ∈ st.oplog.entries := he'
      rw [hentries] at he'
      rcases List.mem_append.mp he' with he' | he'
      · have haudit := haudits e' he'
        rw [heq, hm] at haudit
        exact absurd haudit (by decide)
      · exact List.mem_singleton.mp he'
    have hall : (toEntries st.oplog).countP (fun x => samplePull.sinceCheckpoint < x.seq ∧
        x.seq ≤ e'.seq) = (toEntries st.oplog).length := by
      refine List.countP_eq_length.mpr fun x hx => ?_
      have hrange := MemLog.seq_mem hx
      rw [hentries, List.length_append, List.length_singleton, ← hseq] at hrange
      exact decide_eq_true hrange
    have hlength : (toEntries st.oplog).length = audits.length + 1 := by
      rw [show toEntries st.oplog = audits ++ [e'] from hentries, List.length_append,
        List.length_singleton]
    rw [hall, hlength] at hcount
    have hpage : pageLimit = 1000 := rfl
    omega

end ServerState

/-- **The checkpoint skips an entry.** After a thousand pulls of another tenant, each leaving an
audit record, a push is answered and a pull from the start allowed: the pull returns a checkpoint
behind the pushed mutation, and not the mutation. -/
theorem checkpoint_skips_entry :
    ∃ resp st', crowdedServer.processPull ControlPlane.default samplePull samplePrincipal .state =
        (.ok resp, st') ∧ (∀ d ∈ resp.audit, d.decision = .allow) ∧
      ∃ e ∈ toEntries crowdedServer.oplog, ServerState.Due samplePull resp.newCheckpoint e ∧
        e.mutation ∉ resp.mutations := by
  have hpulled := ServerState.pulledServer_crowded (by omega : 1000 ≤ 2000)
  obtain ⟨audits, e, hentries, haudits, hlength, hm, hseq, hlatest, hcalm⟩ :=
    ServerState.push_crowded hpulled (by omega) (ServerState.pulledServer_audits 1000)
      crowdedServer rfl
  exact ServerState.due_not_pulled hentries haudits hm hseq (by omega) hlatest hcalm

end

/-! ## Mutations without a patch -/

namespace ServerState

section
variable {ω η : Type} [LogOplog ω] [Formatting] [Surroundings] [Arithmetic]

/-- **Deletions do not propagate.** In every run, from any state and with any hooks, no pull
returns a mutation without a patch, and that is the form in which deletions are sent. -/
theorem patchless_not_pulled {cp : ControlPlane η} (st : ServerState ω η)
    (events : List (ServerEvent η)) {req : PullRequest} {principal : AuthPrincipal}
    {readTier : MemoryTier} {resp : PullResponse} {st' : ServerState ω η}
    (hpull : (st.run cp events).processPull cp req principal readTier = (.ok resp, st')) :
    ∀ m, m.patch = none → m ∉ resp.mutations := by
  intro m hpatch hm
  obtain ⟨-, e, -, -, hstored, rfl⟩ := mem_processPull hpull hm
  exact hstored ((annotateMutationForReadTier_patch _ _).mp hpatch)

end
end ServerState

section
attribute [local instance] Formatting.sample Surroundings.sample Arithmetic.sample

/-- The deletion of the document of `sampleClientInsert`, as `delete_one` sends it. -/
def sampleClientDelete : Mutation := .sample "c" "tenant" "d" .delete none 2 "2-0-aaaa" "w2"

/-- The push of both. -/
def sampleDeleteEvents : List (ServerEvent Unit) :=
  [.push (samplePush [sampleClientInsert, sampleClientDelete]) samplePrincipal]

/-- The pull after it: it answers, and without the deletion. -/
theorem ServerState.patchless_not_pulled_sample :
    ((sampleServer.run ControlPlane.default sampleDeleteEvents).processPull
      ControlPlane.default samplePull samplePrincipal .state).1 =
        .ok ⟨[sampleClientInsert], 4, [⟨.allow, "retrieval_allowed"⟩]⟩ ∧
      sampleClientDelete ∉ [sampleClientInsert] := by
  have hpull : ((sampleServer.run ControlPlane.default sampleDeleteEvents).processPull
      ControlPlane.default samplePull samplePrincipal .state).1 =
        .ok ⟨[sampleClientInsert], 4, [⟨.allow, "retrieval_allowed"⟩]⟩ := by decide +kernel
  refine ⟨hpull, ?_⟩
  exact ServerState.patchless_not_pulled sampleServer sampleDeleteEvents
    (Prod.fst_eq_iff.mp hpull) sampleClientDelete rfl

/-- The insert and the deletion are both accepted, and only the insert is pulled. -/
theorem pushed_delete_not_pulled :
    (sampleServer.processPush ControlPlane.default
        (samplePush [sampleClientInsert, sampleClientDelete]) samplePrincipal).1.map
          PushResponse.acceptedSeqs = .ok [2, 4] ∧
      ((sampleServer.run ControlPlane.default sampleDeleteEvents).processPull
        ControlPlane.default samplePull samplePrincipal .state).1 =
          .ok ⟨[sampleClientInsert], 4, [⟨.allow, "retrieval_allowed"⟩]⟩ ∧
      sampleClientDelete.patch = none ∧ sampleClientDelete.op = .delete ∧
      sampleClientDelete ∉ [sampleClientInsert] := by
  refine ⟨?_, ?_, ?_, ?_, ?_⟩ <;> decide +kernel

end
end Rango
