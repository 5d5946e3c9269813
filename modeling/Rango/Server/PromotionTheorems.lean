import Rango.Server.Requests
import Rango.Server.RetryTheorems
import Rango.Server.TrustTheorems

/-!
# What a promotion stores

The control plane returns the sanitized payload of a promotion with its decision, and the server
keeps the decision only. `promotion_stores_returned_iff`: the entry of an accepted promotion has
the returned document exactly when the sanitizer returns the patch as it was submitted.
-/

namespace Rango

/-- Behind the check of its tiers, the promotion path returns the sanitized payload. -/
lemma ControlPlane.promotionPath_payload {η : Type} (cp : ControlPlane η)
    {request : PromotionRequest} (payload : WritePayload) (hooks : η)
    (h : isReject (validateSemanticPromotion request) = false) :
    (cp.promotionPath request payload hooks).1.2 = (cp.sanitize request payload hooks).1 := by
  simp only [promotionPath, h, Bool.false_eq_true, if_false]

namespace ServerState

section
variable {ω η : Type} [Formatting] [Surroundings] [LogOplog ω] {cp : ControlPlane η}
  {st st' : ServerState ω η} {req : PromoteRequest} {seq : ℕ}

omit [Formatting] in
/-- A mutation under a new write id becomes the last entry of the log. -/
lemma appendMutation_new {m : Mutation} {tenantId nameSpace : String}
    (hfresh : st.lookupScopedWriteIdSeq tenantId nameSpace m.writeId = none)
    (h : st.appendMutation m tenantId nameSpace = (.ok seq, st')) :
    ∃ e, toEntries st'.oplog = toEntries st.oplog ++ [e] ∧ e.seq = seq ∧ e.mutation = m := by
  simp only [appendMutation, hfresh] at h
  split at h
  · cases (Prod.mk.inj h).1
  · split_ifs at h with hscope
    · cases (Prod.mk.inj h).1
    · split at h
      · cases (Prod.mk.inj h).1
      · next seq' w happend =>
        obtain ⟨hseq, rfl⟩ := Prod.mk.inj h
        rw [indexMutation_oplog]
        exact ⟨_, LogOplog.append_ok _ _ _ _ happend, Except.ok.inj hseq, rfl⟩

/-- An accepted promotion under a new write id becomes the last entry of the log. -/
lemma Promotes.last_entry (h : Promotes cp req st seq st')
    (hfresh : st.lookupScopedWriteIdSeq req.tenantId req.nameSpace req.mutation.writeId = none) :
    ∃ es e, toEntries st'.oplog = es ++ [e] ∧ e.seq = seq ∧ e.mutation = req.mutation := by
  have hsame := promotionDecision_sameLog cp st req (promotionRequest req)
  obtain ⟨e, he⟩ := appendMutation_new (by
    rw [lookupScopedWriteIdSeq, settle_scopedWriteIds, hsame.writeIds]
    exact hfresh) h.appended
  exact ⟨_, e, he⟩

/-- The entry of a promotion has the document that the control plane returned for it. -/
def StoresReturned (cp : ControlPlane η) (req : PromoteRequest) (st : ServerState ω η) (seq : ℕ)
    (st' : ServerState ω η) : Prop :=
  ∃ doc trust, (cp.promotionPath (promotionRequest req) (Atomic.promotionPayload req)
      st.hooks).1.2 = .stateWithTrust doc trust ∧
    ∃ e ∈ toEntries st'.oplog, e.seq = seq ∧ e.mutation.patch = some doc

/-- **Promotions store what was submitted.** The entry of an accepted promotion with a new write
id has the document that the control plane returned exactly when that is the submitted patch. -/
theorem promotion_stores_returned_iff {principal : AuthPrincipal} {resp : PromoteResponse}
    {doc : Document} {trust : F64}
    (hsanitized : (cp.sanitize (promotionRequest req) (Atomic.promotionPayload req) st.hooks).1 =
      .stateWithTrust doc trust)
    (hfresh : st.lookupScopedWriteIdSeq req.tenantId req.nameSpace req.mutation.writeId = none)
    (hpromote : st.processPromote cp req principal = (.ok resp, st'))
    (hseq : seq ∈ resp.acceptedSeqs) :
    StoresReturned cp req st seq st' ↔ req.mutation.patch = some doc := by
  have hpromotes := promotes_of_processPromote hpromote hseq
  have hreturned := (cp.promotionPath_payload (Atomic.promotionPayload req) st.hooks
    hpromotes.path).trans hsanitized
  obtain ⟨es, e, hentries, heseq, hmutation⟩ := hpromotes.last_entry hfresh
  constructor
  · rintro ⟨doc', trust', hreturned', e', he', hseq', hpatch⟩
    obtain ⟨rfl, -⟩ := WritePayload.stateWithTrust.inj (hreturned.symm.trans hreturned')
    -- numbers increase, so the last one occurs once
    have hlast : e' = e := by
      have hincreasing := LogOplog.increasing st'.oplog
      rw [hentries] at hincreasing he'
      rcases List.mem_append.mp he' with hold | hnew
      · have hlt := (List.pairwise_append.mp hincreasing).2.2 e' hold e (by simp)
        omega
      · exact List.mem_singleton.mp hnew
    rw [← hmutation, ← hlast]
    exact hpatch
  · intro hpatch
    refine ⟨doc, trust, hreturned, e, ?_, heseq, by rw [hmutation, hpatch]⟩
    rw [hentries]
    exact List.mem_append_right _ (List.mem_singleton_self e)

end
end ServerState

/-! ## A sanitizer that redacts -/

section
attribute [local instance] Formatting.sample Surroundings.sample Arithmetic.sample

/-- The default control plane with a sanitizer that empties documents. -/
def sampleRedacting : ControlPlane Unit :=
  { ControlPlane.default with
    sanitize := fun _ payload _ =>
      match payload with
      | .stateWithTrust _ trust => (.stateWithTrust Document.empty trust, ())
      | payload => (payload, ()) }

/-- A promotion whose sanitizer changes nothing. -/
theorem ServerState.promotion_stores_returned_unchanged :
    StoresReturned .default (samplePromotion F64.one) sampleServer 2
      (samplePromoted F64.one) := by
  have hpromote : (sampleServer.processPromote .default (samplePromotion F64.one)
      samplePrincipal).1 = .ok ⟨[2], 2, 0, [⟨.allow, "promotion_allowed"⟩]⟩ := by
    decide +kernel
  exact (ServerState.promotion_stores_returned_iff rfl rfl (Prod.fst_eq_iff.mp hpromote)
    (by decide)).mpr rfl

/-- The redacted document of an accepted promotion is not what the log holds. -/
theorem promotion_stores_unsanitized :
    (sampleServer.processPromote sampleRedacting (samplePromotion F64.one) samplePrincipal).1 =
        .ok ⟨[2], 2, 0, [⟨.allow, "promotion_allowed"⟩]⟩ ∧
      ¬ ServerState.StoresReturned sampleRedacting (samplePromotion F64.one) sampleServer 2
        (sampleServer.processPromote sampleRedacting (samplePromotion F64.one)
          samplePrincipal).2 := by
  refine ⟨by decide +kernel, ?_⟩
  rintro ⟨doc, trust, hreturned, e, he, hseq, hpatch⟩
  obtain ⟨rfl, -⟩ := WritePayload.stateWithTrust.inj hreturned
  have hkept : ∀ e ∈ toEntries (sampleServer.processPromote sampleRedacting
      (samplePromotion F64.one) samplePrincipal).2.oplog, e.seq = 2 →
        e.mutation.patch ≠ some Document.empty := by
    decide +kernel
  exact hkept e he hseq hpatch

end
end Rango
