import Rango.Server.IndexTheorems
import Rango.Server.IsolationTheorems

/-!
# What a checkpoint acknowledges

Every response carries the checkpoint of its scope as it stands at the end of the request, and a
client stores it and asks for what lies behind it next time. So a push acknowledges everything
that other nodes stored since the client last asked (`push_acknowledges_own_iff`), and a refused
pull acknowledges what it did not return (`refused_pull_keeps_iff`).
-/

namespace Rango

/-- The node that submits mutations in the event. -/
def ServerEvent.submitter {η : Type} : ServerEvent η → Option String
  | .push req _ => some req.nodeId
  | .promote req _ => some req.nodeId
  | _ => none

namespace ServerState

/-! ## Pushes -/

section
variable {ω η : Type} [Formatting] [Surroundings] [Arithmetic] [LogOplog ω] (cp : ControlPlane η)

/-- The entry was appended while the event was handled, in a run of these events. -/
def AppendedIn (st : ServerState ω η) (events : List (ServerEvent η)) (ev : ServerEvent η)
    (e : OplogEntry) : Prop :=
  ∃ pre post, events = pre ++ ev :: post ∧ e ∉ toEntries (st.run cp pre).oplog ∧
    e ∈ toEntries ((st.run cp pre).step cp ev).oplog

/-- The entry was appended in an event that the node submitted. -/
def SubmittedBy (st : ServerState ω η) (events : List (ServerEvent η)) (nodeId : String)
    (e : OplogEntry) : Prop :=
  ∃ ev, st.AppendedIn cp events ev e ∧ ev.submitter = some nodeId

variable {cp} {st : ServerState ω η} {events : List (ServerEvent η)} {e : OplogEntry}

lemma run_snoc (st : ServerState ω η) (events : List (ServerEvent η)) (ev : ServerEvent η) :
    st.run cp (events ++ [ev]) = (st.run cp events).step cp ev := by
  rw [run, List.foldl_append]
  rfl

/-- An entry that is there before the last event was appended in an earlier one. -/
lemma submittedBy_snoc_of_mem (he : e ∈ toEntries (st.run cp events).oplog) (ev : ServerEvent η)
    (nodeId : String) :
    st.SubmittedBy cp (events ++ [ev]) nodeId e ↔ st.SubmittedBy cp events nodeId e := by
  constructor
  · rintro ⟨ev', ⟨pre, post, hsplit, hbefore, hafter⟩, hnode⟩
    rcases List.eq_nil_or_concat post with rfl | ⟨post', last, rfl⟩
    · obtain ⟨rfl, -⟩ := List.append_inj' hsplit rfl
      exact absurd he hbefore
    · have hsplit' : events ++ [ev] = (pre ++ ev' :: post') ++ [last] := by
        rw [hsplit, List.append_assoc, List.cons_append, List.concat_eq_append]
      obtain ⟨hevents, -⟩ := List.append_inj' hsplit' rfl
      exact ⟨ev', ⟨pre, post', hevents, hbefore, hafter⟩, hnode⟩
  · rintro ⟨ev', ⟨pre, post, rfl, hbefore, hafter⟩, hnode⟩
    refine ⟨ev', ⟨pre, post ++ [ev], ?_, hbefore, hafter⟩, hnode⟩
    rw [List.append_assoc, List.cons_append]

/-- An entry that is not there before the last event was appended in that. -/
lemma submittedBy_snoc_of_not_mem (he : e ∉ toEntries (st.run cp events).oplog)
    {ev : ServerEvent η} (hafter : e ∈ toEntries ((st.run cp events).step cp ev).oplog)
    {nodeId : String} (hnode : ev.submitter = some nodeId) :
    st.SubmittedBy cp (events ++ [ev]) nodeId e :=
  ⟨ev, ⟨events, [], rfl, he, hafter⟩, hnode⟩

omit [Arithmetic] in
/-- The checkpoint of a response is that of the scope at the end. -/
lemma processPush_checkpoint {st' : ServerState ω η} {req : PushRequest}
    {principal : AuthPrincipal} {resp : PushResponse}
    (h : st.processPush cp req principal = (.ok resp, st')) :
    resp.newCheckpoint = st'.scopedLatestCheckpoint req.tenantId req.nameSpace := by
  simp only [processPush] at h
  split_ifs at h
  · obtain ⟨hresp, rfl⟩ := Prod.mk.inj h
    rw [← Except.ok.inj hresp]
  · obtain ⟨hresp, rfl⟩ := Prod.mk.inj h
    rw [← Except.ok.inj hresp]
  · split at h
    · cases (Prod.mk.inj h).1
    · obtain ⟨hresp, rfl⟩ := Prod.mk.inj h
      rw [← Except.ok.inj hresp]

end

section
variable {ω η : Type} [Formatting] [Surroundings] [Arithmetic] [ReadableOplog ω]
  {cp : ControlPlane η}

/-- The entry belongs to the scope of the push and lies after the checkpoint it was sent with. -/
structure Unseen (req : PushRequest) (e : OplogEntry) : Prop where
  indexable : e.Indexable
  scope : scopeOf e.mutation = (req.tenantId, req.nameSpace)
  after : req.lastCheckpoint < e.seq

/-- **When a push acknowledges only what its node submitted.** In every run of a server on an
empty log, with any hooks, the entries of the scope between the checkpoint of the request and that
of the response are all the node's own exactly when those are that lay behind the checkpoint of
the request already. -/
theorem push_acknowledges_own_iff {w : ω} (hempty : toEntries w = []) (hooks : η) (tick : ℕ)
    (events : List (ServerEvent η)) {req : PushRequest} {principal : AuthPrincipal}
    {resp : PushResponse} {st' : ServerState ω η}
    (hpush : ((withControlPlane w hooks tick).run cp events).processPush cp req principal =
      (.ok resp, st')) :
    (∀ e ∈ toEntries st'.oplog, Unseen req e → e.seq ≤ resp.newCheckpoint →
      (withControlPlane w hooks tick).SubmittedBy cp (events ++ [.push req principal])
        req.nodeId e) ↔
    ∀ e ∈ toEntries ((withControlPlane w hooks tick).run cp events).oplog, Unseen req e →
      (withControlPlane w hooks tick).SubmittedBy cp events req.nodeId e := by
  have hstep : ((withControlPlane w hooks tick).run cp events).step cp (.push req principal) =
      st' := by
    rw [step, hpush]
  have hext : Extends (fun _ => True) ((withControlPlane w hooks tick).run cp events) st' := by
    rw [← hstep]
    exact step_extends cp (fun _ _ _ _ _ _ _ _ => trivial) (fun _ _ => trivial) _
  have hindexed : st'.Indexed := by
    rw [← hstep]
    exact step_indexed cp (run_indexed cp hempty hooks tick events) _
  constructor
  · intro hown e he hunseen
    -- what is there already is acknowledged, since it does not exceed the scope's checkpoint
    have hle : e.seq ≤ resp.newCheckpoint := by
      rw [processPush_checkpoint hpush]
      exact (hindexed.scopedLatestCheckpoint _ _).1 e (hext.mono he) hunseen.indexable
        hunseen.scope
    have hsubmitted := hown e (hext.mono he) hunseen hle
    rwa [submittedBy_snoc_of_mem he] at hsubmitted
  · intro hown e he hunseen _
    by_cases hbefore : e ∈ toEntries ((withControlPlane w hooks tick).run cp events).oplog
    · rw [submittedBy_snoc_of_mem hbefore]
      exact hown e hbefore hunseen
    · refine submittedBy_snoc_of_not_mem hbefore ?_ rfl
      rw [hstep]
      exact he

end

/-! ## Refused pulls -/

section
variable {ω η : Type} [Formatting] [Surroundings] [Arithmetic] [Oplog ω] {cp : ControlPlane η}
  {st st' : ServerState ω η} {req : PullRequest} {principal : AuthPrincipal}
  {readTier : MemoryTier} {resp : PullResponse}

omit [Arithmetic] in
lemma pullAnswered_checkpoint {st₁ : ServerState ω η} (hlatest : st₁.scopedLatest = st.scopedLatest)
    {d : GovernanceDecision} {mutations : List Mutation}
    (h : st₁.pullAnswered req d mutations = (.ok resp, st')) :
    resp.newCheckpoint = st.scopedLatestCheckpoint req.tenantId req.nameSpace := by
  obtain ⟨hresp, -⟩ := Prod.mk.inj h
  rw [← Except.ok.inj hresp]
  exact scopedLatestCheckpoint_congr ((settle_scopedLatest _ _ _ _ _ _).trans hlatest) _ _

/-- A pull answers with the checkpoint of its scope, also where it is refused. -/
lemma processPull_checkpoint (h : st.processPull cp req principal readTier = (.ok resp, st')) :
    resp.newCheckpoint = st.scopedLatestCheckpoint req.tenantId req.nameSpace := by
  unfold processPull at h
  split at h
  · have hlatest : st.countCrossTenantRejection.scopedLatest = st.scopedLatest := rfl
    split_ifs at h
    · exact pullAnswered_checkpoint hlatest h
    · exact pullAnswered_checkpoint rfl h
  · cases hscoped : st.pullScoped req readTier with
    | error fault => simp [hscoped] at h
    | ok scopedEntries =>
      cases hdec : st.readDecision cp req readTier scopedEntries with
      | mk r st₁ =>
        have hlatest : st₁.scopedLatest = st.scopedLatest :=
          congrArg (fun r => r.2.scopedLatest) hdec.symm
        simp only [hscoped, hdec] at h
        split_ifs at h
        · exact pullAnswered_checkpoint hlatest h
        · exact pullAnswered_checkpoint hlatest h

/-- **When a refused pull moves no checkpoint.** A pull that is answered with a rejection returns
nothing, and a checkpoint that is not beyond that of the request exactly when the scope had
nothing newer: in its index, and so in the entries that the index is made of. -/
theorem refused_pull_keeps_iff (h : st.processPull cp req principal readTier = (.ok resp, st'))
    (hrefused : ∃ d ∈ resp.audit, ControlPlane.isReject d = true) :
    resp.mutations = [] ∧ (resp.newCheckpoint ≤ req.sinceCheckpoint ↔
      st.scopedLatestCheckpoint req.tenantId req.nameSpace ≤ req.sinceCheckpoint) ∧
    ∀ es, st.Reflects es → (resp.newCheckpoint ≤ req.sinceCheckpoint ↔
      ∀ e ∈ es, e.Indexable → scopeOf e.mutation = (req.tenantId, req.nameSpace) →
        e.seq ≤ req.sinceCheckpoint) := by
  refine ⟨?_, by rw [processPull_checkpoint h], fun es hes => ?_⟩
  · rcases processPull_ok h with ⟨d, -, -, hnone⟩ |
      ⟨scopedEntries, d, filtered, st₁, -, -, -, -, hd, haudit, -, -⟩
    · exact hnone
    · obtain ⟨d', hd', hreject⟩ := hrefused
      rw [haudit, List.mem_singleton] at hd'
      rw [hd', hd] at hreject
      cases hreject
  · rw [processPull_checkpoint h]
    exact hes.scopedLatestCheckpoint_le_iff _ _ _

end
end ServerState

section
attribute [local instance] Formatting.sample Surroundings.sample Arithmetic.sample

/-- A second node of the tenant of `samplePrincipal`. -/
def secondPrincipal : AuthPrincipal := ⟨"node2", "tenant"⟩

/-- Its push to the same namespace. -/
def secondPush : PushRequest :=
  ⟨"node2", "tenant", "c",
    [.sample "c" "tenant" "e" .insert (some ⟨[("_id", .string "e")]⟩) 1 "1-0-bbbb" "w2"], 0⟩

/-- The second push of the first node, which has seen the answer to its first. -/
theorem ServerState.push_acknowledges_own_iff_sample :
    (∀ e ∈ toEntries (sampleServer.run ControlPlane.default
          (sampleEvents ++ [.push (samplePush [sampleClientInsert]) samplePrincipal])).oplog,
        Unseen (samplePush [sampleClientInsert]) e → e.seq ≤ 2 →
        sampleServer.SubmittedBy ControlPlane.default
          (sampleEvents ++ [.push (samplePush [sampleClientInsert]) samplePrincipal]) "node" e) ↔
    ∀ e ∈ toEntries (sampleServer.run ControlPlane.default sampleEvents).oplog,
      Unseen (samplePush [sampleClientInsert]) e →
      sampleServer.SubmittedBy ControlPlane.default sampleEvents "node" e := by
  have hpush : ((sampleServer.run ControlPlane.default sampleEvents).processPush
      ControlPlane.default (samplePush [sampleClientInsert]) samplePrincipal).1 =
        .ok ⟨[2], 2, 0, 0, [⟨.allow, "trust_score:1.00"⟩]⟩ := by decide +kernel
  rw [ServerState.run_snoc]
  exact ServerState.push_acknowledges_own_iff MemLog.toEntries_new () 0 sampleEvents
    (Prod.fst_eq_iff.mp hpush)

/-- **A push acknowledges another node's data.** The second node has pulled nothing, and the
answer to its push covers the entry that the first node stored. -/
theorem push_acknowledges_other :
    ∃ resp st', (sampleServer.run ControlPlane.default sampleEvents).processPush
        ControlPlane.default secondPush secondPrincipal = (.ok resp, st') ∧
      ∃ e ∈ toEntries st'.oplog, ServerState.Unseen secondPush e ∧ e.seq ≤ resp.newCheckpoint ∧
        ¬ sampleServer.SubmittedBy ControlPlane.default
          (sampleEvents ++ [.push secondPush secondPrincipal]) "node2" e := by
  have hpush : ((sampleServer.run ControlPlane.default sampleEvents).processPush
      ControlPlane.default secondPush secondPrincipal).1 =
        .ok ⟨[4], 4, 0, 0, [⟨.allow, "trust_score:1.00"⟩]⟩ := by decide +kernel
  have hfirst : (toEntries (sampleServer.run ControlPlane.default sampleEvents).oplog).any
      (fun e => e.mutation = sampleClientInsert && e.seq = 2) = true := by decide +kernel
  obtain ⟨e, he, hprop⟩ := List.any_eq_true.mp hfirst
  simp only [Bool.and_eq_true, decide_eq_true_eq] at hprop
  obtain ⟨hm, hseq⟩ := hprop
  have hext : ServerState.Extends (fun _ => True)
      (sampleServer.run ControlPlane.default sampleEvents)
      ((sampleServer.run ControlPlane.default sampleEvents).step ControlPlane.default
        (.push secondPush secondPrincipal)) :=
    ServerState.step_extends ControlPlane.default (fun _ _ _ _ _ _ _ _ => trivial)
      (fun _ _ => trivial) _
  refine ⟨_, _, Prod.fst_eq_iff.mp hpush, e, hext.mono he, ⟨?_, ?_, ?_⟩, ?_, ?_⟩
  · rw [OplogEntry.Indexable, hm]
    decide
  · rw [hm]
    rfl
  · rw [hseq]
    decide
  · rw [hseq]
    decide
  · rw [ServerState.submittedBy_snoc_of_mem he]
    rintro ⟨ev, ⟨pre, post, hsplit, -, -⟩, hnode⟩
    have hev : ev ∈ sampleEvents := by
      rw [hsplit]
      exact List.mem_append_right _ List.mem_cons_self
    rw [List.mem_singleton.mp hev] at hnode
    exact absurd hnode (by decide)

/-- The same pull from behind the entry that is there. -/
def sampleLaterPull : PullRequest := { samplePull with sinceCheckpoint := 2 }

/-- The later pull, from a node under another node's name. -/
theorem ServerState.refused_pull_keeps_iff_sample :
    let st := sampleServer.run ControlPlane.default sampleEvents
    (st.processPull ControlPlane.default sampleLaterPull secondPrincipal .state).1 =
        .ok ⟨[], 2, [⟨.reject, "node_mismatch"⟩]⟩ ∧
      ([] : List Mutation) = [] ∧
      (2 ≤ sampleLaterPull.sinceCheckpoint ↔
        st.scopedLatestCheckpoint "tenant" "c" ≤ sampleLaterPull.sinceCheckpoint) ∧
      ∀ es, st.Reflects es → (2 ≤ sampleLaterPull.sinceCheckpoint ↔
        ∀ e ∈ es, e.Indexable → scopeOf e.mutation = ("tenant", "c") →
          e.seq ≤ sampleLaterPull.sinceCheckpoint) := by
  have hpull : ((sampleServer.run ControlPlane.default sampleEvents).processPull
      ControlPlane.default sampleLaterPull secondPrincipal .state).1 =
        .ok ⟨[], 2, [⟨.reject, "node_mismatch"⟩]⟩ := by decide +kernel
  exact ⟨hpull, ServerState.refused_pull_keeps_iff (Prod.fst_eq_iff.mp hpull)
    ⟨_, List.mem_singleton_self _, rfl⟩⟩

/-- **A refused pull moves the checkpoint.** The scope holds an entry, the pull is refused and
returns nothing, and its checkpoint covers the entry. -/
theorem refused_pull_moves_checkpoint :
    ((sampleServer.run ControlPlane.default sampleEvents).processPull ControlPlane.default
        samplePull secondPrincipal .state).1 =
      .ok ⟨[], 2, [⟨.reject, "node_mismatch"⟩]⟩ ∧ samplePull.sinceCheckpoint < 2 := by
  constructor <;> decide +kernel

end
end Rango
