import Rango.Lib.Runs
import Rango.Server.IsolationTheorems

/-!
# The trust gate

The control plane turns down a pushed mutation whose trust score is below a quarter, and its
promotion path does not look at the score. `trust_gate`: a log outside the audit collection stays
trusted as long as no such mutation gets through a promotion.
-/

namespace Rango

/-- Unless it belongs to the audit collection, the mutation has a trust score of a quarter at
least. -/
def Trusted (m : Mutation) : Prop :=
  m.collection ≠ auditCollection → F64.quarter.le m.metadata.trustScore = true

instance : DecidablePred Trusted := fun m =>
  inferInstanceAs (Decidable (m.collection ≠ auditCollection → _ = true))

lemma auditsSatisfy_trusted [Formatting] (tenantId nameSpace : String) :
    ServerState.AuditsSatisfy (ServerState.WhenValid Trusted) tenantId nameSpace :=
  fun _ _ _ _ _ _ haudit => absurd rfl haudit

namespace ServerState

variable {ω : Type} [LogOplog ω] [Formatting] [Surroundings] [Arithmetic]

/-- The event promotes no mutation with a low trust score that the server has to store: none that
passes the checks of a promotion in a scope that is not contained, under a new write id. -/
def PromotesTrusted (st : ServerState ω Unit) : ServerEvent Unit → Prop
  | .promote req principal =>
    principal.nodeId = req.nodeId → principal.tenantId = req.tenantId → req.Admits .default st →
      Trusted req.mutation
  | _ => True

omit [Surroundings] [Arithmetic] in
/-- A push lets only trusted mutations pass. -/
lemma trusted_of_push {req : PushRequest} {m : Mutation} (h : req.Admits .default m) :
    Trusted m := by
  obtain ⟨hooks, hallowed⟩ := h.allowed
  exact fun _ => (pushDecision_default h.valid).mp hallowed

/-- One event adds trusted mutations. -/
lemma step_trusted {st : ServerState ω Unit} {ev : ServerEvent Unit}
    (h : PromotesTrusted st ev) : Extends Trusted st (st.step .default ev) := by
  by_cases hpromote : ∃ req principal, ev = .promote req principal
  · obtain ⟨req, principal, rfl⟩ := hpromote
    exact (processPromote_grows .default (auditsSatisfy_trusted _ _) h).extends
  · refine step_extends .default auditsSatisfy_trusted (fun m hm => ?_) st
    cases ev with
    | push req principal => exact trusted_of_push hm.2.2
    | promote req principal => exact absurd ⟨req, principal, rfl⟩ hpromote
    | pull | retrieve | restart => exact hm.elim

/-- All entries of the log are trusted. -/
def TrustedLog (st : ServerState ω Unit) : Prop := ∀ e ∈ toEntries st.oplog, Trusted e.mutation

lemma TrustedLog.step {st : ServerState ω Unit} {ev : ServerEvent Unit} (h : TrustedLog st)
    (hev : PromotesTrusted st ev) : TrustedLog (st.step .default ev) := by
  intro e he
  rcases (step_trusted hev).mem he with he | he
  · exact h e he
  · exact he

/-- **The trust gate.** In every run from an empty log under the default control plane whose
promotions are of trusted mutations, every entry outside the audit collection has a trust score
of a quarter at least. -/
theorem trust_gate {oplog : ω} (hempty : toEntries oplog = []) (tick : ℕ)
    {events : List (ServerEvent Unit)}
    (hpromotes : Runs.All (ServerState.step .default) PromotesTrusted
      (withControlPlane oplog () tick) events) :
    TrustedLog ((withControlPlane oplog () tick).run .default events) := by
  have hstart : TrustedLog (withControlPlane oplog () tick) := by
    intro e he
    rw [withControlPlane_oplog, hempty] at he
    cases he
  exact hpromotes.invariant (fun _ _ htrusted hev => htrusted.step hev) hstart

end ServerState

/-! ## A promotion -/

section
attribute [local instance] Formatting.sample Surroundings.sample Arithmetic.sample

/-- A promotion from the episodic to the semantic tier of the first insert, with a trust score. -/
def samplePromotion (trust : F64) : PromoteRequest where
  nodeId := "node"
  tenantId := "tenant"
  nameSpace := "c"
  mutation :=
    { sampleClientInsert with
      metadata := { sampleClientInsert.metadata with trustScore := trust } }
  fromTier := .episodic
  toTier := .semantic
  candidateId := "candidate"
  lastCheckpoint := 0

/-- The server after that promotion. -/
def samplePromoted (trust : F64) : ServerState MemLog Unit :=
  sampleServer.run .default [.promote (samplePromotion trust) samplePrincipal]

/-- A promotion with full trust leaves a trusted log. -/
theorem ServerState.trust_gate_promotion : TrustedLog (samplePromoted F64.one) := by
  have hpromotes : Runs.All (ServerState.step .default) ServerState.PromotesTrusted sampleServer
      [.promote (samplePromotion F64.one) samplePrincipal] := by
    refine ⟨fun _ _ _ => ?_, trivial⟩
    decide
  exact ServerState.trust_gate MemLog.toEntries_new 0 hpromotes

/-- The number `0.1`. -/
def F64.tenth : F64 := ⟨0x3FB999999999999A⟩

/-- A push of a mutation with trust `0.1` is refused, and its promotion is stored. -/
theorem promotion_passes_trust_gate :
    (sampleServer.processPush .default (samplePush [(samplePromotion F64.tenth).mutation])
        samplePrincipal).1.map PushResponse.acceptedSeqs = .ok [] ∧
      (sampleServer.processPromote .default (samplePromotion F64.tenth) samplePrincipal).1 =
        .ok ⟨[2], 2, 0, [⟨.allow, "promotion_allowed"⟩]⟩ ∧
      F64.quarter.le F64.tenth = false ∧
      ¬ ServerState.TrustedLog (samplePromoted F64.tenth) := by
  unfold ServerState.TrustedLog
  decide +kernel

end
end Rango
