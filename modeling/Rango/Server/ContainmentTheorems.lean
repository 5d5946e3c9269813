import Rango.Lib.Runs
import Rango.Server.IsolationTheorems
import Rango.Server.Requests

/-!
# Containment of a scope

Four kinds of request share the containment of a scope. `gateProtocol` is what pushes, pulls and
promotions do with it: a decision that is no rejection is recorded, and a client's mutation
appended, only behind a gate check that let the request pass. Retrievals do not keep to it.
-/

namespace Rango

open Interleaving

/-! ## The protocol of the gate -/

/-- Where a request stands: contained or unchecked, behind a gate that let it pass, or behind a
recorded decision that is no rejection. -/
inductive GatePhase where
  | closed
  | opened
  | admitted
deriving DecidableEq

namespace GatePhase

/-- The steps that a request for a scope takes in a phase. -/
def allowed [Formatting] (scope : String × String) : GatePhase → ServerOp → Prop
  | _, .containmentGate tenantId nameSpace => (tenantId, nameSpace) = scope
  | φ, .registerDecisionOutcome tenantId nameSpace d =>
    (tenantId, nameSpace) = scope ∧ (φ = .opened ∨ ControlPlane.isReject d = true)
  | φ, .appendRemote _ => φ = .admitted
  | _, .appendAudit e => ∃ stage writeId d eventNum t,
    e = Atomic.auditEntry stage scope.1 scope.2 writeId d eventNum t
  | _, _ => True

/-- The phase after a step. -/
def next : GatePhase → (o : ServerOp) → o.Res → GatePhase → Prop
  | _, .containmentGate .., none, ψ => ψ = .opened
  | _, .containmentGate .., some d, ψ => ControlPlane.isReject d = true ∧ ψ = .closed
  | _, .registerDecisionOutcome _ _ d, _, ψ =>
    ψ = if ControlPlane.isReject d then .closed else .admitted
  | φ, _, _, ψ => ψ = φ

end GatePhase

/-- The protocol of the gate. -/
def gateProtocol [Formatting] (scope : String × String) : Protocol GatePhase ServerOp.Res where
  allowed := GatePhase.allowed scope
  next := GatePhase.next

/-! ## Requests follow the protocol -/

namespace Atomic

section
variable [Formatting] {tenantId nameSpace : String} {φ : GatePhase}

/-- A request keeps to the protocol of the gate, whatever the phase at its end. -/
abbrev Gated {α : Type} (tenantId nameSpace : String) (φ : GatePhase) (p : ServerProg α) : Prop :=
  (gateProtocol (tenantId, nameSpace)).Follows (fun _ _ => True) φ p

/-- Recording a decision that is a rejection, or that the gate let pass. -/
lemma settle_gated {stage : String} {writeId : Option String} {d : GovernanceDecision}
    (hd : φ = .opened ∨ ControlPlane.isReject d = true) :
    (gateProtocol (tenantId, nameSpace)).Follows
      (fun ψ _ => ψ = if ControlPlane.isReject d then .closed else .admitted) φ
      (settle stage tenantId nameSpace writeId d) := by
  have hrecord : (gateProtocol (tenantId, nameSpace)).Follows (fun ψ _ => ψ = φ) φ
      (persistAuditEvidence stage tenantId nameSpace writeId d) :=
    persistAuditEvidence_follows ⟨trivial, fun _ _ hψ => hψ⟩
      fun _ _ => ⟨⟨stage, writeId, d, _, _, rfl⟩, fun _ _ hψ => hψ⟩
  refine follows_bind hrecord fun _ => ⟨⟨rfl, hd⟩, fun _ _ hψ => hψ⟩

/-- A mutation is appended behind a decision that is no rejection. -/
lemma appendMutation_gated (m : Mutation) :
    Gated tenantId nameSpace .admitted (appendMutation m tenantId nameSpace) := by
  unfold appendMutation
  cases m.validateMetadata with
  | error err => trivial
  | ok =>
    dsimp only
    split_ifs with hscope
    · trivial
    · refine ⟨trivial, ?_⟩
      rintro (_ | existingSeq) ψ rfl
      · refine ⟨rfl, ?_⟩
        rintro (err | seq) ψ rfl
        · trivial
        · show Gated tenantId nameSpace .admitted (indexMutation seq m >>= fun _ =>
            (pure (.ok seq) : ServerProg (Except RangoError ℕ)))
          unfold indexMutation
          split_ifs
          · trivial
          · exact ⟨trivial, fun _ ψ hψ => hψ ▸ ⟨trivial, fun _ _ _ => trivial⟩⟩
      · trivial

/-! ## Pushes -/

variable {req : PushRequest} {m : Mutation}

lemma pushRefused_gated (crossTenant : Bool) {d : GovernanceDecision}
    (hd : ControlPlane.isReject d = true) :
    Gated req.tenantId req.nameSpace φ (pushRefused req m crossTenant d) :=
  (settle_gated (Or.inr hd)).bind fun _ _ _ => trivial

lemma pushDecided_gated (d : GovernanceDecision) :
    Gated req.tenantId req.nameSpace .opened (pushDecided req m d) := by
  unfold pushDecided
  split_ifs with hd
  · exact pushRefused_gated false hd
  · refine (settle_gated (Or.inl rfl)).bind fun ψ _ hψ => ?_
    rw [if_neg hd] at hψ
    rw [hψ]
    refine (appendMutation_gated m).bind fun _ answer _ => ?_
    cases answer with
    | error err => trivial
    | ok seq => trivial

/-- Each mutation of a push is decided behind a check of the gate. -/
lemma pushMutation_gated (req : PushRequest) (m : Mutation) (φ : GatePhase) :
    Gated req.tenantId req.nameSpace φ (pushMutation req m) := by
  refine ⟨rfl, ?_⟩
  rintro (_ | d) ψ hψ
  · obtain rfl : ψ = .opened := hψ
    dsimp only
    cases m.validateMetadata with
    | error err => exact pushRefused_gated false rfl
    | ok =>
      dsimp only
      split_ifs
      · exact follows_ask_bind ⟨trivial, fun _ _ hψ => hψ⟩ fun _ => pushRefused_gated true rfl
      · exact follows_ask_bind ⟨trivial, fun _ _ hψ => hψ⟩ fun _ => pushDecided_gated _
  · exact pushRefused_gated false hψ.1

lemma pushLoop_gated (req : PushRequest) (ms : List Mutation) (φ : GatePhase) :
    Gated req.tenantId req.nameSpace φ (pushLoop req ms) := by
  induction ms generalizing φ with
  | nil => trivial
  | cons m rest ih =>
    refine (pushMutation_gated req m φ).bind fun ψ pushed _ => ?_
    cases pushed with
    | error fault => trivial
    | ok pushed =>
      refine (ih ψ).bind fun _ outcomes _ => ?_
      cases outcomes with
      | error fault => trivial
      | ok outcomes => trivial

lemma pushMismatch_gated (nonOwner crossTenant : ℕ) (reason : String) :
    Gated req.tenantId req.nameSpace φ (pushMismatch req nonOwner crossTenant reason) :=
  (settle_gated (Or.inr rfl)).bind fun _ _ _ => ⟨trivial, fun _ _ _ => trivial⟩

/-- **Pushes** keep to the protocol. -/
theorem processPush_gated (req : PushRequest) (principal : AuthPrincipal) (φ : GatePhase) :
    Gated req.tenantId req.nameSpace φ (processPush req principal) := by
  unfold processPush
  split_ifs
  · exact follows_ask_bind ⟨trivial, fun _ _ hψ => hψ⟩ fun _ => pushMismatch_gated ..
  · exact follows_ask_bind ⟨trivial, fun _ _ hψ => hψ⟩ fun _ => pushMismatch_gated ..
  · refine (pushLoop_gated req req.mutations φ).bind fun _ outcomes _ => ?_
    cases outcomes with
    | error fault => trivial
    | ok outcomes => exact ⟨trivial, fun _ _ _ => trivial⟩

/-! ## Pulls -/

/-- A pull that ends contained or unchecked returns nothing. -/
def PullEnds (φ : GatePhase) (answer : Except RequestFault PullResponse) : Prop :=
  φ = .closed → ∀ resp, answer = .ok resp → resp.mutations = []

lemma pullAnswered_gated {req : PullRequest} {d : GovernanceDecision}
    {mutations : List Mutation} (hd : φ = .opened ∨ ControlPlane.isReject d = true)
    (hmutations : ControlPlane.isReject d = true → mutations = []) :
    (gateProtocol (req.tenantId, req.nameSpace)).Follows PullEnds φ
      (pullAnswered req d mutations) := by
  refine (settle_gated hd).bind fun ψ _ hψ => ⟨trivial, fun newCheckpoint ψ' hψ' => ?_⟩
  intro hclosed resp hresp
  rw [← Except.ok.inj hresp]
  refine hmutations ?_
  -- the decision closed the phase, so it is a rejection
  rw [hψ', hψ] at hclosed
  by_contra hd'
  rw [if_neg hd'] at hclosed
  cases hclosed

lemma pullDecided_gated {req : PullRequest} {readTier : MemoryTier}
    {scopedEntries : List OplogEntry} {d : GovernanceDecision} {filtered : List Document}
    (hd : φ = .opened ∨ ControlPlane.isReject d = true) :
    (gateProtocol (req.tenantId, req.nameSpace)).Follows PullEnds φ
      (pullDecided req readTier scopedEntries d filtered) := by
  unfold pullDecided
  split_ifs with hreject
  · exact pullAnswered_gated hd fun _ => rfl
  · exact pullAnswered_gated hd fun h => absurd h hreject

/-- **Pulls** keep to the protocol. -/
theorem processPull_gated [Arithmetic] (req : PullRequest) (principal : AuthPrincipal)
    (readTier : MemoryTier) :
    (gateProtocol (req.tenantId, req.nameSpace)).Follows PullEnds .closed
      (processPull req principal readTier) := by
  unfold processPull
  split_ifs
  · exact follows_ask_bind ⟨trivial, fun _ _ hψ => hψ⟩ fun _ =>
      pullAnswered_gated (Or.inr rfl) fun _ => rfl
  · exact pullAnswered_gated (Or.inr rfl) fun _ => rfl
  · cases afterCheckpoint req.sinceCheckpoint with
    | error fault =>
      intro _ resp hresp
      cases hresp
    | ok first =>
      refine follows_ask_bind ⟨trivial, fun _ _ hψ => hψ⟩ ?_
      rintro (err | entries)
      · intro _ resp hresp
        cases hresp
      · refine follows_ask_bind ⟨trivial, fun _ _ hψ => hψ⟩ ?_
        rintro ⟨d, filtered⟩
        refine ⟨rfl, ?_⟩
        rintro (_ | d') ψ hψ
        · exact pullDecided_gated (Or.inl hψ)
        · exact pullDecided_gated (Or.inr hψ.1)

/-! ## Promotions -/

variable {req : PromoteRequest}

lemma promoteRefused_gated {d : GovernanceDecision}
    (hd : φ = .opened ∨ ControlPlane.isReject d = true) :
    Gated req.tenantId req.nameSpace φ (promoteRefused req d) :=
  (settle_gated hd).bind fun _ _ _ => ⟨trivial, fun _ _ _ => trivial⟩

lemma promoteCrossTenant_gated (reason : String) :
    Gated req.tenantId req.nameSpace φ (promoteCrossTenant req reason) :=
  follows_ask_bind ⟨trivial, fun _ _ hψ => hψ⟩ fun _ => promoteRefused_gated (Or.inr rfl)

lemma promoteDecided_gated {d : GovernanceDecision}
    (hd : φ = .opened ∨ ControlPlane.isReject d = true) :
    Gated req.tenantId req.nameSpace φ (promoteDecided req d) := by
  unfold promoteDecided
  split_ifs with hallow
  · exact promoteRefused_gated hd
  · have haccepted : ControlPlane.isReject d = false := by
      rw [not_not] at hallow
      simp [ControlPlane.isReject, hallow]
    refine (settle_gated hd).bind fun ψ _ hψ => ?_
    rw [haccepted, if_neg Bool.false_ne_true] at hψ
    rw [hψ]
    refine (appendMutation_gated req.mutation).bind fun _ answer _ => ?_
    cases answer with
    | error err => trivial
    | ok seq => exact ⟨trivial, fun _ _ _ => trivial⟩

lemma promoteGated_gated (d : GovernanceDecision) :
    Gated req.tenantId req.nameSpace φ (promoteGated req d) := by
  refine ⟨rfl, ?_⟩
  rintro (_ | d') ψ hψ
  · exact promoteDecided_gated (Or.inl hψ)
  · exact promoteDecided_gated (Or.inr hψ.1)

/-- **Promotions** keep to the protocol. -/
theorem processPromote_gated (req : PromoteRequest) (principal : AuthPrincipal) :
    (requestProtocol (gateProtocol (req.tenantId, req.nameSpace))).Follows (fun _ _ => True) φ
      (processPromote req principal) := by
  have hrefused : ∀ reason, (requestProtocol (gateProtocol (req.tenantId, req.nameSpace))).Follows
      (fun _ _ => True) φ (lift (promoteRefused req (ControlPlane.reject reason))) :=
    fun _ => lift_follows (promoteRefused_gated (Or.inr rfl))
  have hcross : ∀ reason, (requestProtocol (gateProtocol (req.tenantId, req.nameSpace))).Follows
      (fun _ _ => True) φ (lift (promoteCrossTenant req reason)) :=
    fun _ => lift_follows (promoteCrossTenant_gated _)
  unfold processPromote
  cases req.mutation.validateMetadata with
  | error err =>
    dsimp only
    split_ifs
    · exact lift_follows (follows_ask_bind ⟨trivial, fun _ _ hψ => hψ⟩ fun _ =>
        promoteRefused_gated (Or.inr rfl))
    · exact hcross _
    · exact hrefused _
  | ok =>
    dsimp only
    split_ifs
    · exact lift_follows (follows_ask_bind ⟨trivial, fun _ _ hψ => hψ⟩ fun _ =>
        promoteRefused_gated (Or.inr rfl))
    · exact hcross _
    · exact hcross _
    · unfold promoteChecked
      dsimp only
      split_ifs with hpath
      · exact lift_follows (promoteRefused_gated (Or.inr hpath))
      · refine ⟨trivial, ?_⟩
        rintro ⟨d, sanitized⟩ ψ rfl
        exact lift_follows (promoteGated_gated d)

end
end Atomic

/-! ## Any request -/

/-- The scope that a request is for. -/
def ServerEvent.scope {η : Type} : ServerEvent η → Option (String × String)
  | .push req _ => some (req.tenantId, req.nameSpace)
  | .pull req _ _ => some (req.tenantId, req.nameSpace)
  | .promote req _ => some (req.tenantId, req.nameSpace)
  | .retrieve req _ => some (req.tenantId, req.nameSpace)
  | .restart _ => none

/-- The event is a push, a pull or a promotion. -/
def ServerEvent.Gates {η : Type} : ServerEvent η → Prop
  | .push .. | .pull .. | .promote .. => True
  | .retrieve .. | .restart _ => False

lemma ServerEvent.Gates.exists_scope {η : Type} {ev : ServerEvent η} (h : ev.Gates) :
    ∃ scope, ev.scope = some scope := by
  cases ev with
  | push | pull | promote => exact ⟨_, rfl⟩
  | retrieve | restart => exact h.elim

lemma ServerEvent.Gates.isRequest {η : Type} {ev : ServerEvent η} (h : ev.Gates) :
    ev.IsRequest := by
  cases ev with
  | push | pull | promote => trivial
  | retrieve | restart => exact h.elim

/-- The mutations that a reply hands out. -/
def ServerReply.mutations : ServerReply → List Mutation
  | .pull (.ok resp) => resp.mutations
  | _ => []

section
variable {η : Type} [Formatting] [Arithmetic]

/-- Pushes, pulls and promotions keep to the protocol of the gate, and hand out nothing when they
end contained. -/
lemma ServerEvent.program_gated {ev : ServerEvent η} (hev : ev.Gates) {scope : String × String}
    (hscope : ev.scope = some scope) :
    (requestProtocol (gateProtocol scope)).Follows
      (fun φ reply => φ = GatePhase.closed → reply.mutations = []) .closed ev.program := by
  cases ev with
  | push req principal =>
    obtain rfl := Option.some.inj hscope
    exact Atomic.reply_follows ((Atomic.lift_follows
      (Atomic.processPush_gated req principal .closed)).imp fun _ _ _ _ => rfl)
  | pull req principal readTier =>
    obtain rfl := Option.some.inj hscope
    refine Atomic.reply_follows ((Atomic.lift_follows
      (Atomic.processPull_gated req principal readTier)).imp fun φ answer hends hφ => ?_)
    cases answer with
    | error fault => rfl
    | ok resp => exact hends hφ resp rfl
  | promote req principal =>
    obtain rfl := Option.some.inj hscope
    exact Atomic.reply_follows ((Atomic.processPromote_gated req principal).imp
      fun _ _ _ _ => rfl)
  | retrieve req principal => exact hev.elim
  | restart hooks => exact hev.elim

end

/-! ## What the steps do to containment -/

namespace RequestOp

variable {o : RequestOp} {scope : String × String}

/-- The scope that a step records a decision for. -/
def decided : RequestOp → Option (String × String)
  | .server (.registerDecisionOutcome tenantId nameSpace _) => some (tenantId, nameSpace)
  | _ => none

/-- The scope that a step records a rejection for. -/
def rejected : RequestOp → Option (String × String)
  | .server (.registerDecisionOutcome tenantId nameSpace d) =>
    if d.decision = .reject then some (tenantId, nameSpace) else none
  | _ => none

/-- The scope that a step checks the gate of. -/
def checked : RequestOp → Option (String × String)
  | .server (.containmentGate tenantId nameSpace) => some (tenantId, nameSpace)
  | _ => none

lemma decided_eq_some :
    o.decided = some scope ↔ ∃ d, o = .server (.registerDecisionOutcome scope.1 scope.2 d) := by
  constructor
  · intro h
    unfold decided at h
    split at h
    · rw [← Option.some.inj h]
      exact ⟨_, rfl⟩
    · cases h
  · rintro ⟨d, rfl⟩
    rfl

lemma checked_eq_some :
    o.checked = some scope ↔ o = .server (.containmentGate scope.1 scope.2) := by
  constructor
  · intro h
    unfold checked at h
    split at h
    · rw [← Option.some.inj h]
    · cases h
  · rintro rfl
    rfl

end RequestOp

namespace ContainmentState

variable {c : ContainmentState} {now : ℕ} {d : GovernanceDecision}

lemma gate_eq_none : c.gate = none ↔ c.mode = .normal := by
  unfold gate
  cases c.mode with
  | normal => simp
  | throttle => simp
  | reject => simp

/-- Only the cooldown ends a containment at the gate. -/
lemma maybeResetAfterCooldown_of_lt (h : now - c.lastEvent < cooldown) :
    c.maybeResetAfterCooldown now = c := by
  rw [maybeResetAfterCooldown, if_neg (by omega)]

/-- A rejection does not end a containment. -/
lemma observeDecision_reject (hd : d.decision = .reject) (hc : c.mode ≠ .normal) :
    (c.observeDecision now d).mode ≠ .normal := by
  rw [observeDecision, if_pos hd]
  dsimp only
  split_ifs
  · decide
  · decide
  · exact hc

end ContainmentState

namespace ServerState

variable {ω η : Type}

/-- The scope's mode is `Throttle` or `Reject`. -/
def Contained (st : ServerState ω η) (scope : String × String) : Prop :=
  ∃ c, st.containment scope = some c ∧ c.mode ≠ .normal

lemma Contained.congr {st st' : ServerState ω η} {scope : String × String}
    (h : st.Contained scope) (heq : st'.containment scope = st.containment scope) :
    st'.Contained scope := by
  obtain ⟨c, hc, hmode⟩ := h
  exact ⟨c, heq.trans hc, hmode⟩

/-- A scope that the gate lets pass is not contained. -/
lemma not_contained_of_gate [Surroundings] {st : ServerState ω η} {tenantId nameSpace : String}
    (h : (st.containmentGate tenantId nameSpace).1 = none) :
    ¬ (st.containmentGate tenantId nameSpace).2.Contained (tenantId, nameSpace) := by
  rintro ⟨c, hc, hmode⟩
  refine hmode (ContainmentState.gate_eq_none.mp ?_)
  simp only [containmentGate, Function.update_self, Option.some.injEq] at hc
  rw [← hc]
  exact h

section
variable [Formatting] [Surroundings] [Oplog ω] (cp : ControlPlane η) {st : ServerState ω η}
  {scope : String × String}

/-- Any other step leaves the containment of the scope. -/
lemma performRequest_containment {o : RequestOp} (hdecided : o.decided ≠ some scope)
    (hchecked : o.checked ≠ some scope) :
    (st.performRequest cp o).2.containment scope = st.containment scope := by
  cases o with
  | promotionPath request payload => rfl
  | server o =>
    cases o with
    | containmentGate tenantId nameSpace =>
      exact Function.update_of_ne (fun h => hchecked (congrArg some h.symm)) _ _
    | registerDecisionOutcome tenantId nameSpace d =>
      exact Function.update_of_ne (fun h => hdecided (congrArg some h.symm)) _ _
    | _ => rfl

/-- What a recorded decision makes of a scope's containment. -/
lemma performRequest_decides {c : ContainmentState} (hc : st.containment scope = some c)
    (d : GovernanceDecision) :
    (st.performRequest cp (.server (.registerDecisionOutcome scope.1 scope.2 d))).2.containment
      scope = some (c.observeDecision (Surroundings.instant (st.tick + 1)) d) := by
  have hof : st.containmentOf scope.1 scope.2 = c := by
    rw [containmentOf, hc]
    rfl
  rw [← hof]
  exact Function.update_self ..

/-- What a check of the gate makes of it. -/
lemma performRequest_checks {c : ContainmentState} (hc : st.containment scope = some c) :
    (st.performRequest cp (.server (.containmentGate scope.1 scope.2))).2.containment scope =
      some (c.maybeResetAfterCooldown (Surroundings.instant (st.tick + 1))) := by
  have hof : st.containmentOf scope.1 scope.2 = c := by
    rw [containmentOf, hc]
    rfl
  rw [← hof]
  exact Function.update_self ..

/-- A recorded decision dates the containment of its scope. -/
lemma lastEvent_of_decides {o : RequestOp} (ho : o.decided = some scope) {c : ContainmentState}
    (hc : (st.performRequest cp o).2.containment scope = some c) :
    c.lastEvent = Surroundings.instant (st.tick + 1) := by
  obtain ⟨d, rfl⟩ := RequestOp.decided_eq_some.mp ho
  simp only [performRequest, perform, registerDecisionOutcome, Function.update_self,
    Option.some.injEq] at hc
  rw [← hc, ContainmentState.observeDecision]
  split_ifs <;> rfl

/-- A scope that is contained after any other step was so before it, since the same decision. -/
lemma contained_of_not_decides {o : RequestOp} (ho : o.decided ≠ some scope) {c : ContainmentState}
    (hc : (st.performRequest cp o).2.containment scope = some c) (hmode : c.mode ≠ .normal) :
    st.containment scope = some c := by
  by_cases hchecked : o.checked = some scope
  · rw [RequestOp.checked_eq_some.mp hchecked] at hc
    cases hc₀ : st.containment scope with
    | none =>
      -- a scope that is entered by a check is not contained
      refine absurd ?_ hmode
      simp only [performRequest, perform, ServerState.containmentGate, containmentOf, hc₀,
        Function.update_self, Option.some.injEq, Option.getD_none] at hc
      rw [← hc, ContainmentState.maybeResetAfterCooldown]
      split_ifs <;> rfl
    | some c₀ =>
      rw [performRequest_checks cp hc₀, Option.some.injEq] at hc
      by_cases hcool : Surroundings.instant (st.tick + 1) - c₀.lastEvent <
          ContainmentState.cooldown
      · rw [← hc, ContainmentState.maybeResetAfterCooldown_of_lt hcool]
      · refine absurd ?_ hmode
        rw [← hc, ContainmentState.maybeResetAfterCooldown, if_pos (not_lt.mp hcool)]
  · rwa [performRequest_containment cp ho hchecked] at hc

/-! ## The last decision -/

/-- Without a decision for it, a scope that is contained at the end was so from the start. -/
lemma containment_of_no_decision {xs : List (RequestOp × ServerState ω η)}
    {st st' : ServerState ω η} {c : ContainmentState}
    (h : Prog.Leads (performRequest cp) st xs st') (hc : st'.containment scope = some c)
    (hmode : c.mode ≠ .normal) (hnone : ∀ x ∈ xs, x.1.decided ≠ some scope) :
    st.containment scope = some c := by
  induction xs generalizing st with
  | nil => exact h ▸ hc
  | cons x rest ih =>
    obtain ⟨rfl, hrest⟩ := h
    obtain ⟨hx, hall⟩ := List.forall_mem_cons.mp hnone
    exact contained_of_not_decides cp hx (ih hrest hall) hmode

/-- Otherwise it is contained since the last decision. -/
lemma last_decision {xs : List (RequestOp × ServerState ω η)} {st st' : ServerState ω η}
    {c : ContainmentState} (h : Prog.Leads (performRequest cp) st xs st')
    (hc : st'.containment scope = some c) (hmode : c.mode ≠ .normal)
    (hsome : ∃ x ∈ xs, x.1.decided = some scope) :
    ∃ pre x mid, xs = pre ++ x :: mid ∧ x.1.decided = some scope ∧
      (∀ y ∈ mid, y.1.decided ≠ some scope) ∧
      c.lastEvent = Surroundings.instant (x.2.tick + 1) := by
  induction xs generalizing st with
  | nil => simp at hsome
  | cons x rest ih =>
    obtain ⟨rfl, hrest⟩ := h
    by_cases hlater : ∃ y ∈ rest, y.1.decided = some scope
    · obtain ⟨pre, y, mid, rfl, hy, hmid, hlast⟩ := ih hrest hlater
      exact ⟨x :: pre, y, mid, rfl, hy, hmid, hlast⟩
    · -- the first of the steps is the last decision
      push Not at hlater
      have hx : x.1.decided = some scope := by
        obtain ⟨y, hy, hdecides⟩ := hsome
        rcases List.mem_cons.mp hy with rfl | hy
        · exact hdecides
        · exact absurd hdecides (hlater y hy)
      have hc₁ := containment_of_no_decision cp hrest hc hmode hlater
      exact ⟨[], x, rest, rfl, hx, hlater, lastEvent_of_decides cp hx hc₁⟩

end
end ServerState

/-! ## The end of a containment -/

namespace ServerState

section
variable {ω η : Type} [Formatting] [Surroundings] [Oplog ω] (cp : ControlPlane η)
  {st : ServerState ω η} {scope : String × String}

/-- Where the step ends a containment, the scope has cooled down. -/
def EndsCooled (o : RequestOp) (st : ServerState ω η) : Prop :=
  ∀ scope c, st.containment scope = some c → c.mode ≠ .normal →
    ¬ (st.performRequest cp o).2.Contained scope →
      ContainmentState.cooldown ≤ Surroundings.instant (st.tick + 1) - c.lastEvent

/-- A check of the gate ends a containment only after the cooldown. -/
lemma endsCooled_checks (scope : String × String) (st : ServerState ω η) :
    EndsCooled cp (.server (.containmentGate scope.1 scope.2)) st := by
  intro scope' c hc hmode hended
  by_contra hlt
  refine hended ?_
  by_cases hscope : scope = scope'
  · subst hscope
    refine ⟨c, ?_, hmode⟩
    rw [performRequest_checks cp hc,
      ContainmentState.maybeResetAfterCooldown_of_lt (not_le.mp hlt)]
  · exact Contained.congr ⟨c, hc, hmode⟩ (Function.update_of_ne (Ne.symm hscope) _ _)

/-- A decision ends the containment of its own scope at most. -/
lemma endsCooled_decides {d : GovernanceDecision}
    (h : ∀ c, st.containment scope = some c → c.mode ≠ .normal →
      ControlPlane.isReject d = true ∨
        ContainmentState.cooldown ≤ Surroundings.instant (st.tick + 1) - c.lastEvent) :
    EndsCooled cp (.server (.registerDecisionOutcome scope.1 scope.2 d)) st := by
  intro scope' c hc hmode hended
  by_cases hscope : scope = scope'
  · subst hscope
    rcases h c hc hmode with hreject | hcool
    · refine absurd ⟨_, performRequest_decides cp hc d, ?_⟩ hended
      exact ContainmentState.observeDecision_reject (of_decide_eq_true hreject) hmode
    · exact hcool
  · exact absurd (Contained.congr ⟨c, hc, hmode⟩ (Function.update_of_ne (Ne.symm hscope) _ _))
      hended

/-- The other steps end no containment. -/
lemma endsCooled_of_eq {o : RequestOp}
    (h : (st.performRequest cp o).2.containment = st.containment) : EndsCooled cp o st :=
  fun scope _ hc hmode hended =>
    absurd (Contained.congr ⟨_, hc, hmode⟩ (congrFun h scope)) hended

omit [Surroundings] in
lemma scope_of_decided {φ : GatePhase} {o : RequestOp} {scope' : String × String}
    (hallowed : (requestProtocol (gateProtocol scope)).allowed φ o)
    (h : o.decided = some scope') : scope' = scope := by
  obtain ⟨d, rfl⟩ := RequestOp.decided_eq_some.mp h
  exact hallowed.1

omit [Surroundings] in
lemma scope_of_checked {φ : GatePhase} {o : RequestOp} {scope' : String × String}
    (hallowed : (requestProtocol (gateProtocol scope)).allowed φ o)
    (h : o.checked = some scope') : scope' = scope := by
  obtain rfl := RequestOp.checked_eq_some.mp h
  exact hallowed

/-- Every step leads to some phase. -/
lemma exists_next {φ : GatePhase} {o : RequestOp}
    (hallowed : (requestProtocol (gateProtocol scope)).allowed φ o) :
    ∃ ψ, (requestProtocol (gateProtocol scope)).next φ o (st.performRequest cp o).1 ψ := by
  cases o with
  | promotionPath request payload => exact ⟨φ, rfl⟩
  | server o =>
    cases o with
    | containmentGate tenantId nameSpace =>
      show ∃ ψ, GatePhase.next φ (.containmentGate tenantId nameSpace)
        (st.containmentGate tenantId nameSpace).1 ψ
      cases hgate : (st.containmentGate tenantId nameSpace).1 with
      | none => exact ⟨.opened, rfl⟩
      | some d => exact ⟨.closed, containmentGate_reject hgate, rfl⟩
    | registerDecisionOutcome tenantId nameSpace d => exact ⟨_, rfl⟩
    | _ => exact ⟨φ, rfl⟩

/-- **One step under the protocol.** Behind an open gate the scope is not contained. -/
lemma gated_step {φ : GatePhase} {o : RequestOp}
    (hallowed : (requestProtocol (gateProtocol scope)).allowed φ o)
    (hopened : φ = .opened → ¬ st.Contained scope) :
    EndsCooled cp o st ∧ ∃ ψ,
      (requestProtocol (gateProtocol scope)).next φ o (st.performRequest cp o).1 ψ ∧
        (ψ = .opened → ¬ (st.performRequest cp o).2.Contained scope) := by
  cases o with
  | promotionPath request payload =>
    exact ⟨endsCooled_of_eq cp rfl, φ, rfl, hopened⟩
  | server o =>
    cases o with
    | containmentGate tenantId nameSpace =>
      obtain rfl : (tenantId, nameSpace) = scope := hallowed
      refine ⟨endsCooled_checks cp (tenantId, nameSpace) st, ?_⟩
      show ∃ ψ, GatePhase.next φ (.containmentGate tenantId nameSpace)
        (st.containmentGate tenantId nameSpace).1 ψ ∧ (ψ = .opened →
          ¬ (st.containmentGate tenantId nameSpace).2.Contained (tenantId, nameSpace))
      cases hgate : (st.containmentGate tenantId nameSpace).1 with
      | none => exact ⟨.opened, rfl, fun _ => not_contained_of_gate hgate⟩
      | some d => exact ⟨.closed, ⟨containmentGate_reject hgate, rfl⟩, nofun⟩
    | registerDecisionOutcome tenantId nameSpace d =>
      obtain ⟨rfl, hd⟩ : (tenantId, nameSpace) = scope ∧
        (φ = .opened ∨ ControlPlane.isReject d = true) := hallowed
      refine ⟨@endsCooled_decides _ _ _ _ _ cp st (tenantId, nameSpace) d fun c hc hmode => ?_,
        _, rfl, ?_⟩
      · rcases hd with hφ | hreject
        · exact absurd ⟨c, hc, hmode⟩ (hopened hφ)
        · exact Or.inl hreject
      · split_ifs <;> exact nofun
    | _ => exact ⟨endsCooled_of_eq cp rfl, φ, rfl, hopened⟩

end

/-! ## Runs of requests -/

section
variable {ω η : Type} [Formatting] [Surroundings] [Oplog ω] [Arithmetic] (cp : ControlPlane η)
  {st : ServerState ω η}

/-- A retrieval meets its scope not contained, or cooled down. -/
def RetrievesCooled (st : ServerState ω η) : ServerEvent η → Prop
  | .retrieve req principal =>
    principal.tenantId = req.tenantId → ∀ c ∈ st.containment (req.tenantId, req.nameSpace),
      c.mode ≠ .normal →
        ContainmentState.cooldown ≤ Surroundings.instant (st.tick + 1) - c.lastEvent
  | _ => True

/-- Every containment that ends on the way ends after the cooldown since the last decision that
was recorded for its scope. -/
def EndsByCooldown (st : ServerState ω η) (events : List (ServerEvent η)) : Prop :=
  ∀ pre x post, st.trace cp events = pre ++ x :: post → ∀ scope, x.2.Contained scope →
    ¬ (x.2.performRequest cp x.1).2.Contained scope →
      ∃ pre' y mid, pre = pre' ++ y :: mid ∧ y.1.decided = some scope ∧
        (∀ z ∈ mid, z.1.decided ≠ some scope) ∧
        Surroundings.instant (y.2.tick + 1) + ContainmentState.cooldown ≤
          Surroundings.instant (x.2.tick + 1)

omit [Arithmetic] in
/-- The steps of a program that keeps to the protocol of a gate. -/
lemma endsCooled_of_follows {scope : String × String} {α : Type} {p : RequestProg α}
    {post : GatePhase → α → Prop}
    (hp : (requestProtocol (gateProtocol scope)).Follows post .closed p) (st : ServerState ω η) :
    ∀ x ∈ p.trace (performRequest cp) st, EndsCooled cp x.1 x.2 :=
  (hp.trace (H := fun _ _ => True) (fun _ _ _ hallowed hinv _ => gated_step cp hallowed hinv)
    nofun fun _ _ => trivial).1

omit [Arithmetic] in
/-- The steps of a retrieval. -/
lemma retrieve_endsCooled {req : RetrievalRequest} {principal : AuthPrincipal}
    (h : RetrievesCooled st (.retrieve req principal)) :
    ∀ x ∈ (Atomic.lift (Atomic.handleRetrievalRead req principal)).trace (performRequest cp) st,
      EndsCooled cp x.1 x.2 := by
  unfold Atomic.handleRetrievalRead
  split_ifs with htenant
  · simp [Atomic.lift, Prog.embed]
  · refine List.forall_mem_cons.mpr ⟨?_, ?_⟩
    · exact @endsCooled_decides _ _ _ _ _ cp st (req.tenantId, req.nameSpace) _
        fun c hc hmode => Or.inr (h (not_not.mp htenant) c hc hmode)
    · have hrecord : Atomic.Gated req.tenantId req.nameSpace .closed (do
          let _ ← Atomic.persistAuditEvidence "retrieval" req.tenantId req.nameSpace none
            ⟨.sanitize, "adapter_unavailable"⟩
          pure (.ok ⟨.degraded, "adapter_unavailable", true⟩) :
            ServerProg (Except RequestFault RetrievalResponse)) :=
        Atomic.follows_bind (Atomic.persistAuditEvidence_follows ⟨trivial, fun _ _ hψ => hψ⟩
          fun _ _ => ⟨⟨"retrieval", none, _, _, _, rfl⟩, fun _ _ hψ => hψ⟩) fun _ => trivial
      exact endsCooled_of_follows cp (Atomic.lift_follows hrecord) _

/-- The steps of a request. -/
lemma stepTrace_endsCooled {ev : ServerEvent η} (hev : ev.IsRequest)
    (h : RetrievesCooled st ev) : ∀ x ∈ st.stepTrace cp ev, EndsCooled cp x.1 x.2 := by
  by_cases hgates : ev.Gates
  · obtain ⟨scope, hscope⟩ := hgates.exists_scope
    exact endsCooled_of_follows cp (ServerEvent.program_gated hgates hscope) st
  · cases ev with
    | retrieve req principal =>
      rw [stepTrace, ServerEvent.program, Prog.trace_bind]
      exact List.forall_mem_append.mpr ⟨retrieve_endsCooled cp h, by simp⟩
    | restart hooks => exact hev.elim
    | push | pull | promote => exact absurd trivial hgates

/-- The steps of a run of requests. -/
lemma trace_endsCooled {events : List (ServerEvent η)} (hevents : ∀ ev ∈ events, ev.IsRequest)
    (h : Runs.All (step cp) RetrievesCooled st events) :
    ∀ x ∈ st.trace cp events, EndsCooled cp x.1 x.2 := by
  induction events generalizing st with
  | nil => simp [trace]
  | cons ev rest ih =>
    obtain ⟨hev, hrest⟩ := List.forall_mem_cons.mp hevents
    exact List.forall_mem_append.mpr ⟨stepTrace_endsCooled cp hev h.1, ih hrest h.2⟩

/-- **Containment ends by cooldown.** In every run of requests whose retrievals meet no scope
that is contained and has not cooled down, no containment ends before the cooldown. -/
theorem ends_by_cooldown {oplog : ω} {hooks : η} {tick : ℕ} {events : List (ServerEvent η)}
    (hevents : ∀ ev ∈ events, ev.IsRequest)
    (hcooled : Runs.All (step cp) RetrievesCooled (withControlPlane oplog hooks tick) events) :
    EndsByCooldown cp (withControlPlane oplog hooks tick) events := by
  intro pre x post htrace scope ⟨c, hc, hmode⟩ hended
  have hleads : Prog.Leads (performRequest cp) _
      ((withControlPlane oplog hooks tick).trace cp events) _ := trace_leads cp hevents
  rw [htrace] at hleads
  obtain ⟨_, hpre, rfl, -⟩ := hleads.split
  -- a scope is not contained at the start, so a decision was recorded for it
  have hsome : ∃ y ∈ pre, y.1.decided = some scope := by
    by_contra hnone
    have hstart := containment_of_no_decision cp hpre hc hmode (by push Not at hnone; exact hnone)
    rw [withControlPlane_containment] at hstart
    cases hstart
  obtain ⟨pre', y, mid, hsplit, hy, hmid, hlast⟩ := last_decision cp hpre hc hmode hsome
  refine ⟨pre', y, mid, hsplit, hy, hmid, ?_⟩
  have hcool := trace_endsCooled cp hevents hcooled x (by simp [htrace]) scope c hc hmode hended
  have hpos : 0 < ContainmentState.cooldown := by decide
  omega

end
end ServerState

/-! ## A retrieval during containment -/

section
attribute [local instance] Formatting.sample Surroundings.sample Arithmetic.sample

/-- Three pushes of a node with the token of another: each is rejected. -/
def sampleBurst : List (ServerEvent Unit) :=
  List.replicate 3 (.push (samplePush []) ⟨"other", "tenant"⟩)

/-- A retrieval from the same scope. -/
def sampleRetrieval : ServerEvent Unit := .retrieve ⟨"tenant", "c"⟩ ⟨"other", "tenant"⟩

/-- The retrieval ends a containment at the instant of the rejection before it. -/
theorem retrieval_ends_containment :
    ¬ ServerState.EndsByCooldown .default sampleServer (sampleBurst ++ [sampleRetrieval]) := by
  intro h
  have hcontained : (sampleServer.run .default sampleBurst).containment ("tenant", "c") =
      some ⟨.throttle, 3, 0⟩ := by
    decide +kernel
  have hended : ¬ ((sampleServer.run .default sampleBurst).registerDecisionOutcome "tenant" "c"
      ⟨.sanitize, "adapter_unavailable"⟩).Contained ("tenant", "c") := by
    rintro ⟨c, hc, hmode⟩
    simp only [ServerState.registerDecisionOutcome, Function.update_self,
      Option.some.injEq] at hc
    exact hmode (hc ▸ rfl)
  obtain ⟨_, _, _, _, _, _, hcool⟩ := h (sampleServer.trace .default sampleBurst)
    (.server (.registerDecisionOutcome "tenant" "c" ⟨.sanitize, "adapter_unavailable"⟩),
      sampleServer.run .default sampleBurst) _ rfl ("tenant", "c") ⟨_, hcontained, by decide⟩ hended
  -- all instants of the run are the same
  have hcool : 0 + ContainmentState.cooldown ≤ 0 := hcool
  exact absurd hcool (by decide)

end

section
attribute [local instance] Formatting.sample Arithmetic.sample

/-- Surroundings in which the clock stands still for some readings, and then a second passes. -/
@[reducible] def Surroundings.pausing : Surroundings where
  auditClock _ := ⟨List.replicate 16 0, 0, 0, 0, 0, 0, 0, 0⟩
  now _ := 0
  instant tick := if tick < 14 then 0 else 1000 * 1000 * 1000

attribute [local instance] Surroundings.pausing

/-- A push that the gate refuses comes behind the three, and after a second a retrieval. -/
def samplePause : List (ServerEvent Unit) :=
  sampleBurst ++ [.push (samplePush [sampleClientInsert]) samplePrincipal, sampleRetrieval]

/-- The containment ends with the retrieval, after its cooldown. -/
theorem ServerState.ends_by_cooldown_sample :
    EndsByCooldown .default sampleServer samplePause := by
  have hevents : ∀ ev ∈ samplePause, ev.IsRequest := by
    simp [samplePause, sampleRetrieval, sampleBurst, ServerEvent.IsRequest]
  have hcontained : (sampleServer.run .default
      (sampleBurst ++ [.push (samplePush [sampleClientInsert]) samplePrincipal])).containment
        ("tenant", "c") = some ⟨.throttle, 4, 0⟩ := by
    decide +kernel
  have hcooled : Runs.All (ServerState.step .default) ServerState.RetrievesCooled sampleServer
      samplePause := by
    refine ⟨trivial, trivial, trivial, trivial, fun _ c hc _ => ?_, trivial⟩
    obtain rfl : (⟨.throttle, 4, 0⟩ : ContainmentState) = c :=
      Option.some.inj (hcontained.symm.trans hc)
    decide +kernel
  exact ServerState.ends_by_cooldown .default hevents hcooled

end

/-! ## A contained scope -/

namespace ServerState

section
variable {ω η : Type} [Formatting] [Surroundings] [LogOplog ω] (cp : ControlPlane η)
  {st : ServerState ω η} {scope : String × String}

/-- A check of the gate comes before the cooldown has passed since the last decision. -/
def ChecksPromptly (o : RequestOp) (st : ServerState ω η) : Prop :=
  ∀ scope ∈ o.checked, ∀ c ∈ st.containment scope,
    Surroundings.instant (st.tick + 1) - c.lastEvent < ContainmentState.cooldown

/-- The log has grown by audit records at most. -/
abbrev ExtendsAudits (st st' : ServerState ω η) : Prop :=
  Extends (fun m => m.collection = auditCollection) st st'

/-- **One step under the protocol, behind a closed gate.** -/
lemma closed_step {st₀ : ServerState ω η} {o : RequestOp}
    (hallowed : (requestProtocol (gateProtocol scope)).allowed .closed o)
    (hcontained : st.Contained scope) (hextends : ExtendsAudits st₀ st)
    (hprompt : ChecksPromptly o st) :
    (requestProtocol (gateProtocol scope)).next .closed o (st.performRequest cp o).1 .closed ∧
      (st.performRequest cp o).2.Contained scope ∧
      ExtendsAudits st₀ (st.performRequest cp o).2 := by
  obtain ⟨c, hc, hmode⟩ := hcontained
  cases o with
  | promotionPath request payload => exact ⟨rfl, ⟨c, hc, hmode⟩, hextends⟩
  | server o =>
    cases o with
    | containmentGate tenantId nameSpace =>
      obtain rfl : (tenantId, nameSpace) = scope := hallowed
      have hcontained' := performRequest_checks cp hc
      rw [ContainmentState.maybeResetAfterCooldown_of_lt (hprompt _ rfl c hc)] at hcontained'
      refine ⟨?_, ⟨c, hcontained', hmode⟩, hextends.of_oplog rfl⟩
      show GatePhase.next .closed (.containmentGate tenantId nameSpace)
        (st.containmentGate tenantId nameSpace).1 .closed
      cases hgate : (st.containmentGate tenantId nameSpace).1 with
      | none => exact absurd ⟨c, hcontained', hmode⟩ (not_contained_of_gate hgate)
      | some d => exact ⟨containmentGate_reject hgate, rfl⟩
    | registerDecisionOutcome tenantId nameSpace d =>
      obtain ⟨rfl, hd⟩ : (tenantId, nameSpace) = scope ∧
        (GatePhase.closed = .opened ∨ ControlPlane.isReject d = true) := hallowed
      have hreject : ControlPlane.isReject d = true := hd.resolve_left nofun
      refine ⟨?_, ⟨_, performRequest_decides cp hc d, ?_⟩, hextends.of_oplog rfl⟩
      · show GatePhase.closed = if ControlPlane.isReject d then .closed else .admitted
        rw [if_pos hreject]
      · exact ContainmentState.observeDecision_reject (of_decide_eq_true hreject) hmode
    | appendRemote m => cases hallowed
    | appendAudit e =>
      obtain ⟨stage, writeId, d, eventNum, t, rfl⟩ := hallowed
      exact ⟨rfl, ⟨c, hc, hmode⟩, hextends.append rfl rfl⟩
    | _ => exact ⟨rfl, ⟨c, hc, hmode⟩, hextends.of_oplog rfl⟩

/-- A request for a contained scope, all of whose checks are prompt, appends audit records only
and hands out nothing. -/
lemma contained_request [Arithmetic] {ev : ServerEvent η} (hev : ev.Gates)
    (hscope : ev.scope = some scope) (hcontained : st.Contained scope)
    (hprompt : ∀ x ∈ st.stepTrace cp ev, ChecksPromptly x.1 x.2) :
    ExtendsAudits st (st.step cp ev) ∧ (st.respond cp ev).mutations = [] := by
  have hstep : ∀ φ o (st' : ServerState ω η),
      (requestProtocol (gateProtocol scope)).allowed φ o →
      (φ = .closed ∧ st'.Contained scope ∧ ExtendsAudits st st') → ChecksPromptly o st' →
        True ∧ ∃ ψ, (requestProtocol (gateProtocol scope)).next φ o (st'.performRequest cp o).1 ψ ∧
          ψ = .closed ∧ (st'.performRequest cp o).2.Contained scope ∧
            ExtendsAudits st (st'.performRequest cp o).2 := by
    rintro φ o st' hallowed ⟨rfl, hcontained', hextends⟩ hprompt'
    obtain ⟨hnext, hafter⟩ := closed_step cp hallowed hcontained' hextends hprompt'
    exact ⟨trivial, .closed, hnext, rfl, hafter⟩
  have hstart : ExtendsAudits st st := .refl st
  obtain ⟨-, ψ, hreply, hψ, -, hextends⟩ := (ServerEvent.program_gated hev hscope).trace hstep
    ⟨rfl, hcontained, hstart⟩ hprompt
  rw [Atomic.run_program cp st hev.isRequest] at hreply hextends
  exact ⟨hextends, hreply hψ⟩

end

end ServerState

/-! ## Modes and counts -/

/-- The mode of a containment is that of its reject count. -/
structure ContainmentState.Graded (c : ContainmentState) : Prop where
  normal : c.mode = .normal ↔ c.rejectCount < 3
  throttle : c.mode = .throttle ↔ c.rejectCount = 3 ∨ c.rejectCount = 4
  reject : c.mode = .reject ↔ 5 ≤ c.rejectCount

namespace ContainmentState.Graded

variable {c : ContainmentState}

/-- A containment without rejections. -/
lemma of_normal (now : ℕ) : Graded ⟨.normal, 0, now⟩ := by
  constructor <;> simp

/-- A containment after rejections. -/
lemma of_count (mode : ContainmentMode) (count now : ℕ) (h : count < 3 → mode = .normal) :
    Graded
      { mode := if 5 ≤ count then .reject else if 3 ≤ count then .throttle else mode
        rejectCount := count, lastEvent := now } := by
  split_ifs with hreject hthrottle
  · constructor <;> simp <;> omega
  · constructor <;> simp <;> omega
  · have hnormal : mode = .normal := h (by omega)
    constructor <;> simp [hnormal] <;> omega

lemma maybeResetAfterCooldown (h : Graded c) (now : ℕ) :
    Graded (c.maybeResetAfterCooldown now) := by
  unfold ContainmentState.maybeResetAfterCooldown
  split_ifs
  · exact of_normal c.lastEvent
  · exact h

/-- A decision keeps mode and count in step, as long as the count does not overflow. -/
lemma observeDecision (h : Graded c) (now : ℕ) {d : GovernanceDecision}
    (hfits : d.decision = .reject → c.rejectCount + 1 < 2 ^ 32) :
    Graded (c.observeDecision now d) := by
  unfold ContainmentState.observeDecision
  by_cases hd : d.decision = .reject
  · rw [if_pos hd, Nat.mod_eq_of_lt (hfits hd)]
    exact of_count c.mode _ now fun hcount => h.normal.mpr (by omega)
  · rw [if_neg hd]
    exact of_normal now

end ContainmentState.Graded

namespace ServerState

section
variable {ω η : Type} [Surroundings]

/-- No recorded rejection lets the count of its scope overflow. -/
def CountFits (o : RequestOp) (st : ServerState ω η) : Prop :=
  ∀ scope ∈ o.rejected, ∀ c ∈ st.containment scope, c.rejectCount + 1 < 2 ^ 32

instance (o : RequestOp) (st : ServerState ω η) : Decidable (CountFits o st) :=
  inferInstanceAs (Decidable (∀ scope ∈ o.rejected, ∀ c ∈ st.containment scope, _))

/-- All scopes have the mode of their count. A scope that is not in the map is new, with the mode
of no rejections. -/
def AllGraded (st : ServerState ω η) : Prop :=
  ∀ scope, ∀ c ∈ st.containment scope, c.Graded

variable {st : ServerState ω η}

lemma AllGraded.containmentOf (h : st.AllGraded) (tenantId nameSpace : String) :
    (st.containmentOf tenantId nameSpace).Graded := by
  unfold ServerState.containmentOf
  cases hc : st.containment (tenantId, nameSpace) with
  | none => exact .of_normal _
  | some c => exact h _ c hc

omit [Surroundings] in
lemma AllGraded.update (h : st.AllGraded) {scope : String × String} {c : ContainmentState}
    (hc : c.Graded) {st' : ServerState ω η}
    (heq : st'.containment = Function.update st.containment scope (some c)) : st'.AllGraded := by
  intro scope' c' hc'
  rw [heq] at hc'
  by_cases hscope : scope' = scope
  · rw [hscope, Function.update_self] at hc'
    rw [← Option.some.inj hc']
    exact hc
  · rw [Function.update_of_ne hscope] at hc'
    exact h scope' c' hc'

variable [Formatting] [Oplog ω] (cp : ControlPlane η)

/-- **One step** keeps all scopes graded. -/
lemma AllGraded.performRequest {o : RequestOp} (h : st.AllGraded) (hfits : CountFits o st) :
    (st.performRequest cp o).2.AllGraded := by
  cases o with
  | promotionPath request payload => exact h
  | server o =>
    cases o with
    | containmentGate tenantId nameSpace =>
      exact h.update ((h.containmentOf tenantId nameSpace).maybeResetAfterCooldown _) rfl
    | registerDecisionOutcome tenantId nameSpace d =>
      refine h.update ((h.containmentOf tenantId nameSpace).observeDecision _ fun hd => ?_) rfl
      unfold ServerState.containmentOf
      cases hc : st.containment (tenantId, nameSpace) with
      | none =>
        show 0 + 1 < 2 ^ 32
        decide
      | some c => exact hfits _ (if_pos hd) c hc
    | _ => exact h

/-- One event keeps all scopes graded. A restart forgets them. -/
lemma AllGraded.step [Arithmetic] {ev : ServerEvent η} (h : st.AllGraded)
    (hfits : ∀ x ∈ st.stepTrace cp ev, CountFits x.1 x.2) : (st.step cp ev).AllGraded := by
  by_cases hev : ev.IsRequest
  · exact ((stepTrace_leads cp hev).invariant (fun _ _ => AllGraded.performRequest cp) h hfits).2
  · cases ev with
    | restart hooks =>
      intro scope c hc
      rw [ServerState.step, withControlPlane_containment] at hc
      cases hc
    | _ => exact absurd trivial hev

/-- So does a run. -/
lemma AllGraded.run [Arithmetic] {events : List (ServerEvent η)} (h : st.AllGraded)
    (hfits : ∀ x ∈ st.trace cp events, CountFits x.1 x.2) : (st.run cp events).AllGraded := by
  induction events generalizing st with
  | nil => exact h
  | cons ev rest ih =>
    obtain ⟨hev, hrest⟩ := List.forall_mem_append.mp hfits
    exact ih (h.step cp hev) hrest

end

/-- **A contained scope lets nothing through.** In every state that a server reaches, a push, a
pull or a promotion for a contained scope appends audit records only and hands out no mutation,
as long as each of its gate checks comes before the cooldown. The mode of every scope is the one
of its reject count, unless that count overflows on the way. -/
theorem contained_lets_nothing_through {ω η : Type} [Formatting] [Surroundings] [Arithmetic]
    [LogOplog ω] (cp : ControlPlane η) {oplog : ω} {hooks : η} {tick : ℕ}
    {events : List (ServerEvent η)} {st : ServerState ω η}
    (hst : st = (withControlPlane oplog hooks tick).run cp events) :
    (∀ scope ev, st.Contained scope → ev.Gates → ev.scope = some scope →
      (∀ x ∈ st.stepTrace cp ev, ChecksPromptly x.1 x.2) →
        ExtendsAudits st (st.step cp ev) ∧ (st.respond cp ev).mutations = []) ∧
    ((∀ x ∈ (withControlPlane oplog hooks tick).trace cp events, CountFits x.1 x.2) →
      st.AllGraded) := by
  refine ⟨fun scope ev hcontained hev hscope hprompt =>
    contained_request cp hev hscope hcontained hprompt, fun hfits => ?_⟩
  rw [hst]
  refine AllGraded.run cp (fun scope c hc => ?_) hfits
  rw [withControlPlane_containment] at hc
  cases hc

end ServerState

section
attribute [local instance] Formatting.sample Surroundings.sample Arithmetic.sample

/-- After a burst of rejections, an allowed pull comes back empty. -/
theorem ServerState.contained_lets_nothing_through_burst :
    (ExtendsAudits (sampleServer.run .default sampleBurst)
        ((sampleServer.run .default sampleBurst).step .default
          (.pull samplePull samplePrincipal .state)) ∧
      ((sampleServer.run .default sampleBurst).respond .default
        (.pull samplePull samplePrincipal .state)).mutations = []) ∧
      (sampleServer.run .default sampleBurst).AllGraded := by
  have hcontained : (sampleServer.run .default sampleBurst).containment ("tenant", "c") =
      some ⟨.throttle, 3, 0⟩ := by
    decide +kernel
  obtain ⟨hcloses, hgraded⟩ := ServerState.contained_lets_nothing_through .default
    (rfl : sampleServer.run .default sampleBurst = _)
  refine ⟨hcloses ("tenant", "c") _ ⟨_, hcontained, by decide⟩ trivial rfl fun x _ => ?_,
    hgraded ?_⟩
  · -- no time passes
    intro scope _ c _
    show 0 - c.lastEvent < ContainmentState.cooldown
    rw [Nat.zero_sub]
    decide
  · decide +kernel

end
end Rango
