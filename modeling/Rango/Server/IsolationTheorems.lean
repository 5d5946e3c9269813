import Rango.Server.PullTheorems

/-!
# Tenant isolation

Every entry of the log is an audit record or a mutation that was submitted under a principal
of the tenant it names (`run_provenance`). A pull returns entries of its own scope only, and
never an audit record, so what a tenant receives was submitted by that tenant.
-/

namespace Rango

namespace ServerState

section
variable {ω η : Type} [LogOplog ω] [Formatting] [Surroundings] [Arithmetic] (cp : ControlPlane η)

/-- The mutation is that of an audit record, or was submitted in one of the events under a
principal of the tenant it names. -/
def Provenance (events : List (ServerEvent η)) (m : Mutation) : Prop :=
  m.metadata.type = auditType ∨ ∃ ev ∈ events, ev.Submits m.metadata.tenantId m

/-- Every entry of a log that was empty at the start has a provenance. -/
theorem run_provenance {oplog : ω} (hempty : toEntries oplog = []) (hooks : η) (tick : ℕ)
    (events : List (ServerEvent η)) {e : OplogEntry}
    (he : e ∈ toEntries ((withControlPlane oplog hooks tick).run cp events).oplog) :
    Provenance events e.mutation := by
  have hrun : Extends (Provenance events) (withControlPlane oplog hooks tick)
      ((withControlPlane oplog hooks tick).run cp events) :=
    run_extends cp (fun tenantId nameSpace stage writeId d eventNum t hvalid =>
        .inl (auditsSatisfy_type stage writeId d eventNum t hvalid))
      (fun ev hev m hm => .inr ⟨ev, hev, hm.submits.1⟩) _
  rcases hrun.mem he with he | he
  · simp [hempty] at he
  · exact he

/-- **Tenant isolation.** In every run of a server on an empty oplog, with any hooks, every
mutation in the response to a pull names the tenant of the pull's principal and the namespace
of the request, and is that of a mutation submitted by a push or a promotion under a principal
of the same tenant, annotated for the tier. -/
theorem tenant_isolation {oplog : ω} (hempty : toEntries oplog = []) (hooks : η) (tick : ℕ)
    (events : List (ServerEvent η)) {req : PullRequest} {principal : AuthPrincipal}
    {readTier : MemoryTier} {resp : PullResponse} {st' : ServerState ω η}
    (hpull : ((withControlPlane oplog hooks tick).run cp events).processPull cp req principal
      readTier = (.ok resp, st')) :
    ∀ m ∈ resp.mutations,
      m.metadata.tenantId = principal.tenantId ∧ m.metadata.nameSpace = req.nameSpace ∧
        ∃ ev ∈ events, ∃ submitted, ev.Submits principal.tenantId submitted ∧
          m = annotateMutationForReadTier submitted readTier := by
  intro m hm
  obtain ⟨htenant, e, he, hscope, -, rfl⟩ := mem_processPull hpull hm
  simp only [inPullScope, Bool.and_eq_true, decide_eq_true_eq] at hscope
  obtain ⟨⟨⟨hscopeTenant, hnamespace⟩, htype⟩, -⟩ := hscope
  have howner : e.mutation.metadata.tenantId = principal.tenantId := hscopeTenant.trans htenant.symm
  rw [annotateMutationForReadTier_metadata]
  refine ⟨howner, hnamespace, ?_⟩
  rcases run_provenance cp hempty hooks tick events he with haudit | ⟨ev, hev, hsubmits⟩
  · exact absurd haudit htype
  · exact ⟨ev, hev, e.mutation, howner ▸ hsubmits, rfl⟩

end
end ServerState

section
attribute [local instance] Formatting.sample Surroundings.sample Arithmetic.sample

/-- A node of tenant `"tenant"`. -/
def samplePrincipal : AuthPrincipal := ⟨"node", "tenant"⟩

/-- An insert into namespace `"c"` of that tenant. -/
def sampleClientInsert : Mutation :=
  .sample "c" "tenant" "d" .insert (some ⟨[("_id", .string "d")]⟩) 1 "1-0-aaaa" "w1"

/-- A push of mutations to that namespace. -/
def samplePush (mutations : List Mutation) : PushRequest := ⟨"node", "tenant", "c", mutations, 0⟩

/-- A pull of that namespace from the start. -/
def samplePull : PullRequest := ⟨"node", "tenant", "c", 0⟩

/-- A new server on an empty log, under the default control plane. -/
def sampleServer : ServerState MemLog Unit := .withControlPlane MemLog.new () 0

/-- The first request to it. -/
def sampleEvents : List (ServerEvent Unit) :=
  [.push (samplePush [sampleClientInsert]) samplePrincipal]

/-- What was pushed is pulled back, and was submitted by the same tenant. -/
theorem ServerState.tenant_isolation_sample :
    ((sampleServer.run ControlPlane.default sampleEvents).processPull ControlPlane.default
        samplePull samplePrincipal .state).1 =
      .ok ⟨[sampleClientInsert], 2, [⟨.allow, "retrieval_allowed"⟩]⟩ ∧
    ∀ m ∈ [sampleClientInsert],
      m.metadata.tenantId = "tenant" ∧ m.metadata.nameSpace = "c" ∧
        ∃ ev ∈ sampleEvents, ∃ submitted, ev.Submits "tenant" submitted ∧
          m = annotateMutationForReadTier submitted .state := by
  have hpull : ((sampleServer.run ControlPlane.default sampleEvents).processPull
      ControlPlane.default samplePull samplePrincipal .state).1 =
        .ok ⟨[sampleClientInsert], 2, [⟨.allow, "retrieval_allowed"⟩]⟩ := by decide +kernel
  exact ⟨hpull, ServerState.tenant_isolation ControlPlane.default MemLog.toEntries_new () 0
    sampleEvents (Prod.fst_eq_iff.mp hpull)⟩

end
end Rango
