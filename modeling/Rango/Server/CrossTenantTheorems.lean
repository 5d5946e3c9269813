import Rango.Server.ContainmentTheorems

/-!
# Requests across tenants

A push, a pull or a promotion that names another tenant than its token is refused. The refusal
still counts as a rejection of the scope that the request names
(`containment_of_others_kept_iff`), and its response has the checkpoint of that scope
(`refusals_equal_iff`).
-/

namespace Rango

/-- The principal of a request. -/
def ServerEvent.principal {η : Type} : ServerEvent η → Option AuthPrincipal
  | .push _ principal => some principal
  | .pull _ principal _ => some principal
  | .promote _ principal => some principal
  | .retrieve _ principal => some principal
  | .restart _ => none

/-- A push, a pull or a promotion that names a scope of another tenant than its token. -/
structure ServerEvent.CrossTenant {η : Type} (ev : ServerEvent η) (scope : String × String) :
    Prop where
  gates : ev.Gates
  names : ev.scope = some scope
  foreign : ∃ principal, ev.principal = some principal ∧ scope.1 ≠ principal.tenantId

namespace ServerState

section
variable {ω η : Type} [Formatting] [Surroundings] [Oplog ω] [Arithmetic] (cp : ControlPlane η)
  {ev : ServerEvent η} {scope : String × String}

/-- What a request does that is refused for the scope it names: it records a rejection, and
answers with the checkpoint of the scope. -/
structure Refused (ev : ServerEvent η) (scope : String × String) (refusal : ℕ → ServerReply)
    (stage : String) (writeId : Option String) (reason : String) (st : ServerState ω η) :
    Prop where
  shows : Function.Injective refusal
  settles : ∃ st₁ : ServerState ω η, st₁.containment = st.containment ∧
    st₁.scopedLatest = st.scopedLatest ∧
    st.step cp ev = st₁.settle stage scope.1 scope.2 writeId (ControlPlane.reject reason) ∧
    st.respond cp ev = refusal ((st.step cp ev).scopedLatestCheckpoint scope.1 scope.2)

lemma push_refused {req : PushRequest} {principal : AuthPrincipal}
    (h : req.tenantId ≠ principal.tenantId) : ∃ refusal reason, ∀ st : ServerState ω η,
      Refused cp (.push req principal) (req.tenantId, req.nameSpace) refusal "write" none reason
        st := by
  by_cases hnode : req.nodeId ≠ principal.nodeId
  · refine ⟨fun n => .push (.ok ⟨[], n, 1, 0, [ControlPlane.reject "node_mismatch"]⟩),
      "node_mismatch", fun st => ⟨fun n n' hn => by simpa using hn, st.countNonOwnerRejection, rfl,
        rfl, ?_⟩⟩
    simp only [ServerState.step, ServerState.respond, processPush, if_pos hnode, and_self]
  · refine ⟨fun n => .push (.ok ⟨[], n, 0, 1, [ControlPlane.reject "tenant_mismatch"]⟩),
      "tenant_mismatch", fun st => ⟨fun n n' hn => by simpa using hn, st.countCrossTenantRejection,
        rfl, rfl, ?_⟩⟩
    simp only [ServerState.step, ServerState.respond, processPush, if_neg hnode, if_pos h, and_self]

lemma pull_refused {req : PullRequest} {principal : AuthPrincipal} (readTier : MemoryTier)
    (h : req.tenantId ≠ principal.tenantId) : ∃ refusal, ∀ st : ServerState ω η,
      Refused cp (.pull req principal readTier) (req.tenantId, req.nameSpace) refusal "read" none
        "tenant_mismatch" st := by
  refine ⟨fun n => .pull (.ok ⟨[], n, [ControlPlane.reject "tenant_mismatch"]⟩), fun st =>
    ⟨fun n n' hn => by simpa using hn, st.countCrossTenantRejection, rfl, rfl, ?_⟩⟩
  simp only [ServerState.step, ServerState.respond, processPull, if_pos (Or.inr (Ne.symm h)),
    if_pos (Ne.symm h)]
  exact ⟨rfl, rfl⟩

lemma promote_refused {req : PromoteRequest} {principal : AuthPrincipal}
    (h : req.tenantId ≠ principal.tenantId) : ∃ refusal reason, ∀ st : ServerState ω η,
      Refused cp (.promote req principal) (req.tenantId, req.nameSpace) refusal "promotion"
        (some req.mutation.writeId) reason st := by
  by_cases hnode : req.nodeId ≠ principal.nodeId
  · refine ⟨fun n => .promote (.ok ⟨[], n, 1, [ControlPlane.reject "node_mismatch"]⟩),
      "node_mismatch", fun st => ⟨fun n n' hn => by simpa using hn, st.countNonOwnerRejection, rfl,
        rfl, ?_⟩⟩
    simp only [ServerState.step, ServerState.respond, processPromote, if_pos hnode]
    exact ⟨rfl, rfl⟩
  · refine ⟨fun n => .promote (.ok ⟨[], n, 1, [ControlPlane.reject "tenant_mismatch"]⟩),
      "tenant_mismatch", fun st => ⟨fun n n' hn => by simpa using hn, st.countCrossTenantRejection,
        rfl, rfl, ?_⟩⟩
    simp only [ServerState.step, ServerState.respond, processPromote, if_neg hnode, if_pos h]
    exact ⟨rfl, rfl⟩

/-- **Refusals.** A request across tenants is refused for the scope that it names. -/
lemma crossTenant_refused (hev : ev.CrossTenant scope) :
    ∃ refusal stage writeId reason, ∀ st : ServerState ω η,
      Refused cp ev scope refusal stage writeId reason st := by
  obtain ⟨hgates, hscope, principal, hprincipal, htenant⟩ := hev
  cases ev with
  | push req principal' =>
    obtain rfl := Option.some.inj hscope
    obtain rfl := Option.some.inj hprincipal
    obtain ⟨refusal, reason, h⟩ := @push_refused ω _ _ _ _ _ cp _ _ htenant
    exact ⟨refusal, _, _, reason, h⟩
  | pull req principal' readTier =>
    obtain rfl := Option.some.inj hscope
    obtain rfl := Option.some.inj hprincipal
    obtain ⟨refusal, h⟩ := @pull_refused ω _ _ _ _ _ cp _ _ readTier htenant
    exact ⟨refusal, _, _, _, h⟩
  | promote req principal' =>
    obtain rfl := Option.some.inj hscope
    obtain rfl := Option.some.inj hprincipal
    obtain ⟨refusal, reason, h⟩ := @promote_refused ω _ _ _ _ _ cp _ _ htenant
    exact ⟨refusal, _, _, reason, h⟩
  | retrieve | restart => exact hgates.elim

/-! ## Containment of other tenants -/

omit [Arithmetic] in
/-- A rejection changes the containment of its scope: its count moves on, at a width of 32. -/
lemma settle_containment_ne {st : ServerState ω η} {stage tenantId nameSpace : String}
    {writeId : Option String} {d : GovernanceDecision} (hd : d.decision = .reject) :
    (st.settle stage tenantId nameSpace writeId d).containment (tenantId, nameSpace) ≠
      st.containment (tenantId, nameSpace) := by
  obtain ⟨-, -, hcontainment⟩ := persistAuditEvidence_frame st stage tenantId nameSpace writeId d
  simp only [settle, registerDecisionOutcome, Function.update_self, containmentOf, hcontainment]
  cases hc : st.containment (tenantId, nameSpace) with
  | none => simp
  | some c =>
    intro h
    have hcount : (c.rejectCount + 1) % 2 ^ 32 = c.rejectCount := by
      have heq := congrArg ContainmentState.rejectCount (Option.some.inj h)
      rw [Option.getD_some, ContainmentState.observeDecision, if_pos hd] at heq
      exact heq
    omega

/-- Steps of a request for a scope leave the containment of all others. -/
lemma containment_of_gates (hev : ev.Gates) (hscope : ev.scope = some scope)
    (st : ServerState ω η) {scope' : String × String} (hne : scope' ≠ scope) :
    (st.step cp ev).containment scope' = st.containment scope' := by
  have hstep : ∀ φ o (st' : ServerState ω η),
      (requestProtocol (gateProtocol scope)).allowed φ o →
      st'.containment scope' = st.containment scope' → True →
        True ∧ ∃ ψ, (requestProtocol (gateProtocol scope)).next φ o (st'.performRequest cp o).1 ψ ∧
          (st'.performRequest cp o).2.containment scope' = st.containment scope' := by
    intro φ o st' hallowed heq _
    obtain ⟨ψ, hψ⟩ : ∃ ψ, (requestProtocol (gateProtocol scope)).next φ o
      (st'.performRequest cp o).1 ψ := exists_next cp hallowed
    refine ⟨trivial, ψ, hψ, ?_⟩
    rw [performRequest_containment cp (fun h => hne (scope_of_decided hallowed h))
      (fun h => hne (scope_of_checked hallowed h)), heq]
  obtain ⟨-, ψ, -, hkept⟩ := (ServerEvent.program_gated hev hscope).trace hstep rfl
    fun _ _ => trivial
  rwa [Atomic.run_program cp st hev.isRequest] at hkept

/-- **Containment of other tenants.** A push, a pull or a promotion leaves the containment of the
scopes of all other tenants exactly when it names the tenant of its token. -/
theorem containment_of_others_kept_iff (hev : ev.Gates) (hscope : ev.scope = some scope)
    {principal : AuthPrincipal} (hprincipal : ev.principal = some principal)
    (st : ServerState ω η) :
    (∀ scope', scope'.1 ≠ principal.tenantId →
      (st.step cp ev).containment scope' = st.containment scope') ↔
      scope.1 = principal.tenantId := by
  constructor
  · intro hkept
    by_contra htenant
    obtain ⟨refusal, stage, writeId, reason, hrefused⟩ :=
      @crossTenant_refused ω _ _ _ _ _ cp _ _ ⟨hev, hscope, principal, hprincipal, htenant⟩
    obtain ⟨st₁, hcontainment, -, hstep, -⟩ := (hrefused st).settles
    have hscopeKept := hkept scope htenant
    rw [hstep, ← hcontainment] at hscopeKept
    exact settle_containment_ne rfl hscopeKept
  · intro htenant scope' hother
    exact containment_of_gates cp hev hscope st fun heq => hother (heq ▸ htenant)

/-! ## What a refusal reveals -/

/-- **Refusals reveal a checkpoint.** Two servers answer a request across tenants alike exactly
when they have indexed the same latest number for the scope that it names. -/
theorem refusals_equal_iff (hev : ev.CrossTenant scope) (st st' : ServerState ω η) :
    st.respond cp ev = st'.respond cp ev ↔
      st.scopedLatestSeq scope.1 scope.2 = st'.scopedLatestSeq scope.1 scope.2 := by
  obtain ⟨refusal, stage, writeId, reason, hrefused⟩ := @crossTenant_refused ω _ _ _ _ _ cp _ _ hev
  have hanswer : ∀ st : ServerState ω η,
      st.respond cp ev = refusal (st.scopedLatestSeq scope.1 scope.2) := by
    intro st
    obtain ⟨st₁, -, hlatest, hstep, hrespond⟩ := (hrefused st).settles
    rw [hrespond, hstep, scopedLatestCheckpoint_congr (settle_scopedLatest ..),
      scopedLatestCheckpoint_congr hlatest, scopedLatestCheckpoint_eq]
  rw [hanswer, hanswer, (hrefused st).shows.eq_iff]

end
end ServerState

/-! ## A request from another tenant -/

section
attribute [local instance] Formatting.sample Surroundings.sample Arithmetic.sample

/-- A push to the scope of `"tenant"` under a token of tenant `"other"`. -/
def sampleForeignPush : ServerEvent Unit := .push (samplePush []) ⟨"node", "other"⟩

/-- For a push under the own token. -/
theorem ServerState.containment_of_others_kept_own :
    (∀ scope : String × String, scope.1 ≠ samplePrincipal.tenantId →
      (sampleServer.step .default (.push (samplePush [sampleClientInsert]) samplePrincipal)
        ).containment scope = sampleServer.containment scope) ↔
      "tenant" = samplePrincipal.tenantId :=
  have hgates : (ServerEvent.push (samplePush [sampleClientInsert]) samplePrincipal :
    ServerEvent Unit).Gates := trivial
  ServerState.containment_of_others_kept_iff .default hgates rfl rfl sampleServer

/-- The push from the other tenant does not. -/
theorem foreign_push_changes_containment : ¬ ∀ scope : String × String, scope.1 ≠ "other" →
    (sampleServer.step .default sampleForeignPush).containment scope =
      sampleServer.containment scope := by
  intro hkept
  exact absurd (hkept ("tenant", "c") (by decide)) (by decide +kernel)

/-- Two servers differ in the entries, the indexes and the containment of one tenant only. -/
structure ServerState.DifferOnlyIn {ω η : Type} [LogOplog ω] (tenantId : String)
    (st st' : ServerState ω η) : Prop where
  entries : (toEntries st.oplog).filter (fun e => e.mutation.metadata.tenantId ≠ tenantId) =
    (toEntries st'.oplog).filter fun e => e.mutation.metadata.tenantId ≠ tenantId
  latest : ∀ scope, scope.1 ≠ tenantId → st.scopedLatest scope = st'.scopedLatest scope
  writeIds : ∀ key, key.1 ≠ tenantId → st.scopedWriteIds key = st'.scopedWriteIds key
  containment : ∀ scope, scope.1 ≠ tenantId → st.containment scope = st'.containment scope
  hooks : st.hooks = st'.hooks
  nonOwnerRejections : st.nonOwnerRejections = st'.nonOwnerRejections
  crossTenantRejections : st.crossTenantRejections = st'.crossTenantRejections
  auditCounter : st.auditCounter = st'.auditCounter
  tick : st.tick = st'.tick

/-- A log with one entry, of tenant `"tenant"`. -/
def sampleTenantLog : MemLog :=
  (Oplog.append { seq := 0, timestamp := 0, mutation := sampleClientInsert, origin := .remote
                  applied := false, snapshotAnchor := none } MemLog.new).2

/-- A server on that log. -/
def sampleTenantServer : ServerState MemLog Unit := .withControlPlane sampleTenantLog () 0

lemma sampleTenantServer_eq : sampleTenantServer =
    (ServerState.unindexed sampleTenantLog () 0).indexMutation 1 sampleClientInsert := rfl

lemma sampleForeignPush_crossTenant : sampleForeignPush.CrossTenant ("tenant", "c") :=
  ⟨trivial, rfl, ⟨"node", "other"⟩, rfl, by decide⟩

/-- Its refusals tell the number of that entry. -/
theorem foreign_push_reveals_checkpoint :
    ServerState.DifferOnlyIn "tenant" sampleServer sampleTenantServer ∧
      sampleForeignPush.CrossTenant ("tenant", "c") ∧
      sampleServer.respond .default sampleForeignPush ≠
        sampleTenantServer.respond .default sampleForeignPush := by
  have hdiffer : ServerState.DifferOnlyIn "tenant" sampleServer sampleTenantServer := by
    rw [sampleTenantServer_eq]
    exact
      { entries := by decide
        latest := fun scope h =>
          (Function.update_of_ne (fun heq => h (congrArg Prod.fst heq)) _ _).symm
        writeIds := fun key h =>
          (Function.update_of_ne (fun heq => h (congrArg Prod.fst heq)) _ _).symm
        containment := fun _ _ => rfl
        hooks := rfl
        nonOwnerRejections := rfl
        crossTenantRejections := rfl
        auditCounter := rfl
        tick := rfl }
  exact ⟨hdiffer, sampleForeignPush_crossTenant, by decide +kernel⟩

/-- A push that was refused to the tenant itself is not told. -/
theorem ServerState.refusals_equal_rejected :
    sampleServer.respond .default sampleForeignPush =
      (sampleServer.step .default (.push (samplePush []) ⟨"other", "tenant"⟩)).respond .default
        sampleForeignPush :=
  (ServerState.refusals_equal_iff .default sampleForeignPush_crossTenant sampleServer _).mpr
    (by decide +kernel)

end
end Rango
