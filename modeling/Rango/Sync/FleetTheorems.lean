import Rango.Server.IndexTheorems
import Rango.Server.PullTheorems
import Rango.Sync.EnqueueTheorems
import Rango.Sync.Fleet

/-!
# What a fleet stores

A sync command changes the server only by its requests, and pushes only what its oplog holds
(`Workspace.runSync_server`). So in every run of a fleet, whatever the network loses, what the
server stores was written in a workspace or sent by another client, and a write id is stored once
(`Fleet.stored_once`). What a pull hands out stands for such a write (`Fleet.pulled_once`).
-/

namespace Rango

/-! ## What a sync command does to a server -/

section
variable {ν : Type} [SyncServer ν]

/-- The relation holds between a server before and after any requests of a client that pushes
only entries of a list. -/
structure SyncServer.Keeps (R : ν → ν → Prop) (nodeId : String) (entries : List OplogEntry) :
    Prop where
  refl : ∀ s, R s s
  trans : ∀ s s' s'', R s s' → R s' s'' → R s s''
  push : ∀ window checkpoint s, window ⊆ entries →
    R s (SyncClient.push nodeId (window.map OplogEntry.mutation) checkpoint s).2
  pull : ∀ checkpoint s, R s (SyncClient.pull nodeId checkpoint s).2

variable {R : ν → ν → Prop} {nodeId : String}

namespace SyncScheduler

variable {ω κ χ : Type} [LogOplog ω] [SyncQueue κ] [CheckpointStore χ] {config : SyncConfig}
  {log : ω} {s : SyncState κ χ ν}

omit [SyncServer ν] in
/-- A cycle pushes entries of its oplog. -/
lemma Sends.window_subset {seqs : List ℕ} {window : List OplogEntry} {checkpoint : ℕ}
    (h : Sends config log s seqs window checkpoint) : window ⊆ toEntries log := by
  have hpos : 0 < seqs.length := List.length_pos_of_ne_nil h.nonempty
  intro e he
  rw [LogOplog.readSince_ok _ _ _ _ hpos h.window] at he
  exact List.mem_of_mem_filter (List.mem_of_mem_take he)

lemma pushPhase_server (h : SyncServer.Keeps R nodeId (toEntries log)) :
    R s.server (pushPhase config nodeId log s).2.server := by
  rcases pushPhase_cases config nodeId log s with heq | ⟨seqs, window, checkpoint, hsends, rest⟩
  · rw [heq]
    exact h.refl _
  · have hpush := h.push window checkpoint s.server hsends.window_subset
    obtain ⟨server, ⟨resp, hout, heq⟩ | ⟨err, hout, heq⟩⟩ := rest
    · rw [heq, (pushAnswered_frame _ _).2]
      rwa [hout] at hpush
    · rw [heq, (pushFailed_frame _ _ _).2.2]
      rwa [hout] at hpush

omit [LogOplog ω] [SyncQueue κ] in
lemma pullPhase_server {entries : List OplogEntry} (h : SyncServer.Keeps R nodeId entries) :
    R s.server (pullPhase nodeId s).2.server := by
  rcases (pullPhase_frame nodeId s).2 with heq | ⟨checkpoint, heq⟩
  · rw [heq]
    exact h.refl _
  · rw [heq]
    exact h.pull checkpoint _

/-- What a cycle's requests keep, the cycle keeps. -/
theorem runOnce_server (h : SyncServer.Keeps R nodeId (toEntries log)) :
    R s.server (runOnce config nodeId log s).2.server := by
  have hpush : R s.server (pushPhase config nodeId log s).2.server := pushPhase_server h
  rcases runOnce_state config nodeId log s with heq | heq
  · rw [heq]
    exact hpush
  · rw [heq]
    exact h.trans _ _ _ hpush (pullPhase_server h)

end SyncScheduler

namespace Workspace

variable {ω : Type} [DurableOplog ω] [QueueCodec] [JsonCodec] [Arithmetic] {ws ws' : Workspace ω}
  {fuel : ℕ} {server server' : ν}

/-- A sync command keeps what its requests keep, and the entries of its oplog. -/
theorem runSync_server (h : SyncServer.Keeps R nodeId (toEntries ws.oplog))
    {result : Except Fault SyncResult}
    (hrun : runSync fuel nodeId ws server = some (result, ws', server')) :
    R server server' ∧ toEntries ws'.oplog = toEntries ws.oplog := by
  unfold runSync at hrun
  split at hrun
  · obtain ⟨-, rfl, rfl⟩ := Option.some.inj hrun
    exact ⟨h.refl _, rfl⟩
  · next opened hopen =>
    have hentries := (opened_frame hopen).1
    split at hrun
    · cases hrun
    · next queued hloop =>
      obtain ⟨-, rfl, rfl⟩ := Option.some.inj hrun
      rw [(enqueueWrites_frame hloop).1]
      exact ⟨h.refl _, hentries⟩
    · next queued hloop =>
      rw [← hentries, ← (enqueueWrites_frame hloop).1] at h ⊢
      obtain ⟨-, rfl, rfl⟩ := Option.some.inj hrun
      exact ⟨SyncScheduler.runOnce_server h, rfl⟩

/-- Every event keeps what the requests of its command keep, and removes no entry. -/
lemma step_server {s : Workspace ω × ν} (ev : Event)
    (h : ∀ nodeId, SyncServer.Keeps R nodeId (toEntries s.1.oplog)) :
    R s.2 (step fuel s ev).2 ∧ toEntries s.1.oplog ⊆ toEntries (step fuel s ev).1.oplog := by
  have hrefl : R s.2 s.2 := (h "").refl s.2
  cases ev with
  | write entry =>
    refine ⟨hrefl, ?_⟩
    show toEntries s.1.oplog ⊆ toEntries (Oplog.append entry s.1.oplog).2
    rcases happend : Oplog.append entry s.1.oplog with ⟨err | seq, log⟩
    · rw [LogOplog.append_error _ _ _ _ happend]
      exact List.Subset.refl _
    · rw [LogOplog.append_ok _ _ _ _ happend]
      exact List.subset_append_left _ _
  | openLog =>
    rw [step]
    split
    · exact ⟨hrefl, List.Subset.refl _⟩
    · next log hopen =>
      refine ⟨hrefl, ?_⟩
      show toEntries s.1.oplog ⊆ toEntries log
      rw [DurableOplog.reopen_ok _ _ hopen]
      exact List.Subset.refl _
  | sync nodeId =>
    rw [step]
    split
    · exact ⟨hrefl, List.Subset.refl _⟩
    · next result after hrun =>
      obtain ⟨hserver, hentries⟩ := runSync_server (h nodeId) hrun
      refine ⟨hserver, ?_⟩
      rw [hentries]
      exact List.Subset.refl _

end Workspace
end

/-! ## The server behind its connection -/

section
variable {ω η : Type} [LogOplog ω] {P : AuthPrincipal → Mutation → Prop}

/-- The server behind the link is the same one for the same client, and its log grew by mutations
that satisfy `P` for that client. -/
structure Link.Grew (P : AuthPrincipal → Mutation → Prop) (l l' : Link (Remote ω η)) : Prop where
  principal : l'.server.principal = l.server.principal
  grows : ServerState.Grows (P l.server.principal) l.server.state l'.server.state

/-- A request over the link that may only grow the log. -/
lemma Link.grew_send {α : Type} {request : Remote ω η → HttpReply α × Remote ω η}
    (l : Link (Remote ω η)) (hprincipal : (request l.server).2.principal = l.server.principal)
    (hgrows : ServerState.Grows (P l.server.principal) l.server.state (request l.server).2.state) :
    Link.Grew P l (Link.send request l).2 := by
  rcases Link.send_server request l with heq | heq
  · exact ⟨congrArg Remote.principal heq, heq ▸ .same (.refl _)⟩
  · exact ⟨(congrArg Remote.principal heq).trans hprincipal, heq ▸ hgrows⟩

variable [Formatting] [Surroundings] [Arithmetic]

/-- The requests of a client make the log grow by audit records and, under a principal of the
tenant `"default"`, by entries of the client's oplog that fit its scope. -/
lemma Link.grew_keeps {entries : List OplogEntry}
    (haudit : ∀ p tenantId nameSpace,
      ServerState.AuditsSatisfy (ServerState.WhenValid (P p)) tenantId nameSpace)
    (hentries : ∀ p : AuthPrincipal, p.tenantId = "default" → ∀ e ∈ entries,
      e.mutation.Fits "default" "default" → P p e.mutation) (nodeId : String) :
    SyncServer.Keeps (Link.Grew (ω := ω) (η := η) P) nodeId entries where
  refl l := ⟨rfl, .same (.refl _)⟩
  trans l l' l'' h h' := ⟨h'.principal.trans h.principal, h.grows.trans (h.principal ▸ h'.grows)⟩
  push window checkpoint l hwindow := by
    apply Link.grew_send l rfl
    apply ServerState.processPush_grows l.server.cp (haudit _ _ _)
    intro hp m hm hadmits
    obtain ⟨e, he, rfl⟩ := List.mem_map.mp hm
    exact hentries _ hp e (hwindow he) hadmits.toFits
  pull checkpoint l := by
    apply Link.grew_send l rfl
    exact ServerState.processPull_grows l.server.cp (haudit _ _ _) .state l.server.state

end

/-! ## What a pull selects -/

lemma annotateMutationForReadTier_collection (m : Mutation) (tier : MemoryTier) :
    (annotateMutationForReadTier m tier).collection = m.collection := by
  unfold annotateMutationForReadTier
  split_ifs <;> rfl

lemma annotateMutationForReadTier_writeKey (m : Mutation) (tier : MemoryTier) :
    writeKey (annotateMutationForReadTier m tier) = writeKey m := by
  unfold annotateMutationForReadTier
  split_ifs <;> rfl

/-- A pull selects from the entries in their order, each at most once. -/
lemma selectMutations_sublist (tier : MemoryTier) (counts : ℕ × String → ℕ)
    (es : List OplogEntry) :
    (selectMutations tier counts es).Sublist
      (es.map fun e => annotateMutationForReadTier e.mutation tier) := by
  induction es generalizing counts with
  | nil => exact List.Sublist.refl _
  | cons e rest ih =>
    rw [selectMutations, List.map_cons]
    dsimp only
    split_ifs
    · exact (ih counts).cons _
    · exact (ih _).cons_cons _
    · exact (ih counts).cons _

/-- So what a pull returns is a selection of the log. -/
lemma ServerState.processPull_sublist {ω η : Type} [LogOplog ω] [Formatting] [Surroundings]
    [Arithmetic] {cp : ControlPlane η} {st st' : ServerState ω η} {req : PullRequest}
    {principal : AuthPrincipal} {readTier : MemoryTier} {resp : PullResponse}
    (h : st.processPull cp req principal readTier = (.ok resp, st')) :
    resp.mutations.Sublist
      ((toEntries st.oplog).map fun e => annotateMutationForReadTier e.mutation readTier) := by
  rcases processPull_ok h with ⟨d, -, -, hnone⟩ |
    ⟨scopedEntries, d, filtered, st₁, -, -, hscoped, -, -, -, -, hsel⟩
  · rw [hnone]
    exact List.nil_sublist _
  · rw [hsel]
    obtain ⟨first, -, rfl⟩ := pullScoped_ok hscoped
    apply (selectMutations_sublist _ _ _).trans
    apply List.Sublist.map
    exact List.filter_sublist.trans ((List.take_sublist _ _).trans List.filter_sublist)

/-! ## Fleets -/

namespace Fleet

section
variable {ι ω ω' η : Type} [DurableOplog ω]

/-- The mutation fits the scope of the clients, and one of the tenant `"default"` has it in its
oplog. -/
def Wrote (principals : ι → AuthPrincipal) (f : Fleet ι ω ω' η) (m : Mutation) : Prop :=
  m.Fits "default" "default" ∧ ∃ i, (principals i).tenantId = "default" ∧
    ∃ e ∈ toEntries (f.nodes i).oplog, e.mutation = m

/-- The mutation is one of the server's own audit records. -/
def Recorded [Formatting] (m : Mutation) : Prop :=
  ∃ stage tenantId nameSpace writeId d eventNum t,
    m = ServerState.auditMutation stage tenantId nameSpace writeId d eventNum t

lemma recorded_auditsSatisfy [Formatting] (tenantId nameSpace : String) {P : Mutation → Prop}
    (hP : ∀ m, Recorded m → P m) :
    ServerState.AuditsSatisfy (ServerState.WhenValid P) tenantId nameSpace :=
  fun stage writeId d eventNum t _ =>
    hP _ ⟨stage, tenantId, nameSpace, writeId, d, eventNum, t, rfl⟩

/-- Another client sent the mutation, and it passes the checks that do not depend on the state. -/
def Sent [Formatting] (cp : ControlPlane η) (events : List (FleetEvent ι η)) (m : Mutation) :
    Prop :=
  ∃ ev, .server ev ∈ events ∧ ev.Admits cp m

variable [Formatting] [LogOplog ω'] {principals : ι → AuthPrincipal} {f f' : Fleet ι ω ω' η}
  {Q : Mutation → Prop}

/-- The indexes of the server are right, and what it stores is its own, was written in a workspace
or satisfies `Q`. -/
structure Sound (principals : ι → AuthPrincipal) (Q : Mutation → Prop) (f : Fleet ι ω ω' η) :
    Prop where
  indexed : f.server.Indexed
  stored : ∀ e ∈ toEntries f.server.oplog,
    Recorded e.mutation ∨ f.Wrote principals e.mutation ∨ Q e.mutation

omit [Formatting] [LogOplog ω'] in
lemma Wrote.mono {m : Mutation} (h : f.Wrote principals m)
    (hnodes : ∀ i, toEntries (f.nodes i).oplog ⊆ toEntries (f'.nodes i).oplog) :
    f'.Wrote principals m := by
  obtain ⟨hfits, i, hi, e, he, heq⟩ := h
  exact ⟨hfits, i, hi, e, hnodes i he, heq⟩

/-- A step that only adds to the oplogs of the workspaces, and whose new entries on the server
are audit records, written or satisfy `Q`. -/
lemma Sound.extend (h : f.Sound principals Q)
    (hnodes : ∀ i, toEntries (f.nodes i).oplog ⊆ toEntries (f'.nodes i).oplog)
    (hext : ServerState.Extends
      (fun m => Recorded m ∨ f.Wrote principals m ∨ Q m) f.server f'.server)
    (hindexed : f'.server.Indexed) : f'.Sound principals Q where
  indexed := hindexed
  stored e he := by
    have hbefore : Recorded e.mutation ∨ f.Wrote principals e.mutation ∨ Q e.mutation := by
      rcases hext.mem he with he | hnew
      · exact h.stored e he
      · exact hnew
    exact hbefore.imp_right fun horigin => horigin.imp_left fun hwrote => hwrote.mono hnodes

end

section
variable {ι ω ω' η : Type} [DecidableEq ι] [DurableOplog ω] [QueueCodec] [JsonCodec] [Arithmetic]
  [Formatting] [Surroundings] [ReadableOplog ω'] {cp : ControlPlane η}
  {principals : ι → AuthPrincipal} {fuel : ℕ} {f : Fleet ι ω ω' η} {Q : Mutation → Prop}

/-- What happens in a workspace keeps the fleet sound, whatever the network loses. -/
lemma Sound.node (h : f.Sound principals Q) (i : ι) (ev : Workspace.Event)
    (deliveries : List Delivery) :
    (f.step cp principals fuel (.node i ev deliveries)).Sound principals Q := by
  let P : AuthPrincipal → Mutation → Prop := fun p m =>
    Recorded m ∨ (m.Fits "default" "default" ∧ p.tenantId = "default" ∧
      ∃ e ∈ toEntries (f.nodes i).oplog, e.mutation = m)
  have hkeeps : ∀ nodeId, SyncServer.Keeps (Link.Grew (ω := ω') (η := η) P) nodeId
      (toEntries (f.nodes i).oplog) := by
    apply Link.grew_keeps
    · exact fun p tenantId nameSpace => recorded_auditsSatisfy tenantId nameSpace fun _ h => .inl h
    · exact fun p hp e he hfits => Or.inr ⟨hfits, hp, e, he, rfl⟩
  let s : Workspace ω × Link (Remote ω' η) :=
    (f.nodes i, ⟨⟨cp, principals i, f.server⟩, deliveries⟩)
  have hstep : Link.Grew P s.2 (Workspace.step fuel s ev).2 ∧
      toEntries s.1.oplog ⊆ toEntries (Workspace.step fuel s ev).1.oplog :=
    Workspace.step_server ev hkeeps
  obtain ⟨hgrew, hentries⟩ := hstep
  have hgrows := hgrew.grows
  apply h.extend
  · intro j
    show toEntries (f.nodes j).oplog ⊆ toEntries (Function.update f.nodes i _ j).oplog
    by_cases hj : j = i
    · subst hj
      rw [Function.update_self]
      exact hentries
    · rw [Function.update_of_ne hj]
      exact List.Subset.refl _
  · obtain ⟨added, heq, hall⟩ := hgrows.extends
    refine ⟨added, heq, fun e he => ?_⟩
    rcases hall e he with hrecorded | ⟨hfits, hp, e', he', hm⟩
    · exact Or.inl hrecorded
    · exact Or.inr (Or.inl ⟨hfits, i, hp, e', he', hm⟩)
  · exact h.indexed.grows hgrows

/-- So do the requests of other clients and restarts. -/
lemma Sound.server (h : f.Sound principals Q) {ev : ServerEvent η}
    (hQ : ∀ m, ev.Admits cp m → Q m) :
    (f.step cp principals fuel (.server ev)).Sound principals Q := by
  apply h.extend
  · exact fun i => List.Subset.refl _
  · apply ServerState.step_extends cp
    · exact fun tenantId nameSpace => recorded_auditsSatisfy tenantId nameSpace fun _ h => .inl h
    · exact fun m hm => Or.inr (Or.inr (hQ m hm))
  · exact ServerState.step_indexed cp h.indexed ev

/-- Every run keeps a fleet sound. -/
lemma Sound.run (h : f.Sound principals Q) {events : List (FleetEvent ι η)}
    (hQ : ∀ m, Sent cp events m → Q m) : (f.run cp principals fuel events).Sound principals Q := by
  induction events generalizing f with
  | nil => exact h
  | cons ev rest ih =>
    have hrest : ∀ m, Sent cp rest m → Q m := fun m ⟨ev', hev', hm⟩ =>
      hQ m ⟨ev', List.mem_cons_of_mem _ hev', hm⟩
    cases ev with
    | node i ev deliveries => exact ih (h.node i ev deliveries) hrest
    | server ev => exact ih (h.server fun m hm => hQ m ⟨ev, List.mem_cons_self, hm⟩) hrest

/-- So a fleet is sound in every run from an empty log of the server. -/
lemma run_sound {nodes : ι → Workspace ω} {w : ω'} (hempty : toEntries w = []) {hooks : η}
    {tick : ℕ} {events : List (FleetEvent ι η)}
    (hrun : run cp principals fuel ⟨nodes, ServerState.withControlPlane w hooks tick⟩ events = f) :
    f.Sound principals (Sent cp events) := by
  have hstart : Sound principals (Sent cp events)
      (⟨nodes, ServerState.withControlPlane w hooks tick⟩ : Fleet ι ω ω' η) := by
    refine ⟨ServerState.run_indexed cp hempty hooks tick [], fun e he => ?_⟩
    rw [ServerState.withControlPlane_oplog, hempty] at he
    cases he
  rw [← hrun]
  exact hstart.run fun m hm => hm

/-- **What a fleet stores.** Workspaces in any state sync with a server that starts on an empty
log, over a network that loses any requests and responses, while other clients use the server and
the server restarts. Then every entry of the server is its own audit record, or is in the oplog of
a workspace whose client is of the tenant `"default"`, or was sent by another client, and passed
the checks; and outside the audit collection, a write id of a tenant and namespace is stored
once. -/
theorem stored_once (cp : ControlPlane η) (principals : ι → AuthPrincipal) (fuel : ℕ)
    (nodes : ι → Workspace ω) {w : ω'} (hempty : toEntries w = []) (hooks : η) (tick : ℕ)
    (events : List (FleetEvent ι η)) {f : Fleet ι ω ω' η}
    (hrun : run cp principals fuel ⟨nodes, ServerState.withControlPlane w hooks tick⟩ events = f) :
    (∀ e ∈ toEntries f.server.oplog,
      Recorded e.mutation ∨ f.Wrote principals e.mutation ∨ Sent cp events e.mutation) ∧
    ServerState.KeysUnique (toEntries f.server.oplog) := by
  have hend : f.Sound principals (Sent cp events) := run_sound hempty hrun
  exact ⟨hend.stored, hend.indexed.keys⟩

/-- **What a fleet hands out.** What a pull returns in such a run was written in a workspace or
sent by another client, in the client's tenant and the namespace it asks for, and stands in the
response as it was written, annotated for the tier. Outside the audit collection, a write id is
returned once. -/
theorem pulled_once (cp : ControlPlane η) (principals : ι → AuthPrincipal) (fuel : ℕ)
    (nodes : ι → Workspace ω) {w : ω'} (hempty : toEntries w = []) (hooks : η) (tick : ℕ)
    (events : List (FleetEvent ι η)) {f : Fleet ι ω ω' η}
    (hrun : run cp principals fuel ⟨nodes, ServerState.withControlPlane w hooks tick⟩ events = f)
    {req : PullRequest} {principal : AuthPrincipal} {readTier : MemoryTier} {resp : PullResponse}
    {st' : ServerState ω' η}
    (hpull : f.server.processPull cp req principal readTier = (.ok resp, st')) :
    (∀ m ∈ resp.mutations, ∃ written, m = annotateMutationForReadTier written readTier ∧
      scopeOf written = (principal.tenantId, req.nameSpace) ∧
      (f.Wrote principals written ∨ Sent cp events written)) ∧
    resp.mutations.Pairwise fun m m' => m.collection ≠ auditCollection →
      m'.collection ≠ auditCollection → writeKey m ≠ writeKey m' := by
  have hend : f.Sound principals (Sent cp events) := run_sound hempty hrun
  constructor
  · intro m hm
    obtain ⟨htenant, e, he, hscope, -, rfl⟩ := ServerState.mem_processPull hpull hm
    obtain ⟨hetenant, hnameSpace, htype⟩ := ServerState.scope_of_inPullScope hscope
    refine ⟨e.mutation, rfl, ?_, ?_⟩
    · rw [scopeOf, hetenant, hnameSpace, htenant]
    · rcases hend.stored e he with ⟨stage, tenantId, nameSpace, writeId, d, n, t, heq⟩ | horigin
      · exact absurd (congrArg (fun m => m.metadata.type) heq) htype
      · exact horigin
  · apply List.Pairwise.sublist (ServerState.processPull_sublist hpull)
    rw [List.pairwise_map]
    apply hend.indexed.keys.imp
    intro a b hkeys ha hb
    rw [annotateMutationForReadTier_collection] at ha hb
    rw [annotateMutationForReadTier_writeKey, annotateMutationForReadTier_writeKey]
    exact hkeys ha hb

end
end Fleet

/-! ## A lost response -/

section
attribute [local instance] sampleWorkspaceCodec sampleJsonCodec Formatting.sample
  Surroundings.sample Arithmetic.sample

/-- One of two workspaces writes and syncs, and syncs again as the response to its push is lost. -/
def sampleFleetEvents : List (FleetEvent Bool Unit) :=
  [.node true (.write (sampleWrite "w1")) [], .node true (.sync "node") [.responseLost],
    .node true (.sync "node") []]

/-- The fleet that this leaves. -/
def sampleFleet : Fleet Bool FileLog MemLog Unit :=
  Fleet.run ControlPlane.default (fun _ => ⟨"node", "default"⟩) 3
    ⟨fun _ => sampleWorkspace.1, .withControlPlane MemLog.new () 0⟩ sampleFleetEvents

/-- The write that was sent twice is stored once. -/
theorem Fleet.stored_once_sample :
    (toEntries sampleFleet.server.oplog).map (fun e => e.mutation.writeId) =
        ["governance-audit:default:default:write:w1:1", "w1",
          "governance-audit:default:default:write:w1:2",
          "governance-audit:default:default:read:none:3"] ∧
      (∀ e ∈ toEntries sampleFleet.server.oplog, Fleet.Recorded e.mutation ∨
        sampleFleet.Wrote (fun _ => ⟨"node", "default"⟩) e.mutation ∨
          Fleet.Sent ControlPlane.default sampleFleetEvents e.mutation) ∧
      ServerState.KeysUnique (toEntries sampleFleet.server.oplog) := by
  refine ⟨by decide +kernel, ?_⟩
  exact Fleet.stored_once ControlPlane.default (fun _ => ⟨"node", "default"⟩) 3
    (fun _ : Bool => sampleWorkspace.1) MemLog.toEntries_new () 0 sampleFleetEvents rfl

/-- The pull of a new client. -/
def sampleFleetPull : PullRequest := ⟨"peer", "default", "default", 0⟩

/-- The other client gets the write, once. -/
theorem Fleet.pulled_once_sample :
    (∀ m ∈ [(sampleWrite "w1").mutation], ∃ written,
      m = annotateMutationForReadTier written .state ∧ scopeOf written = ("default", "default") ∧
        (sampleFleet.Wrote (fun _ => ⟨"node", "default"⟩) written ∨
          Fleet.Sent ControlPlane.default sampleFleetEvents written)) ∧
      [(sampleWrite "w1").mutation].Pairwise fun m m' => m.collection ≠ auditCollection →
        m'.collection ≠ auditCollection → writeKey m ≠ writeKey m' := by
  have hpull : (sampleFleet.server.processPull ControlPlane.default sampleFleetPull
      ⟨"peer", "default"⟩ .state).1 =
        .ok ⟨[(sampleWrite "w1").mutation], 2, [⟨.allow, "retrieval_allowed"⟩]⟩ := by
    decide +kernel
  exact Fleet.pulled_once ControlPlane.default (fun _ => ⟨"node", "default"⟩) 3
    (fun _ : Bool => sampleWorkspace.1) MemLog.toEntries_new () 0 sampleFleetEvents rfl
    (Prod.fst_eq_iff.mp hpull)

end
end Rango
