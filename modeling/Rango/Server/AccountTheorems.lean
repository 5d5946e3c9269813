import Rango.Server.AppendTheorems
import Rango.Server.AcceptanceTheorems
import Rango.Server.IsolationTheorems

/-!
# What the answer to a push accounts for

A client sees the decisions on its mutations and a list of numbers, and matches the two by
position. `Accounts` is that reading of an answer, one mutation after another: a rejection takes
no number and appends audit records only, any other decision takes the next number, which is that
of the mutation's entry or of the one that its key had before. `push_accounting` says that every
answer can be read so.
-/

namespace Rango

namespace ServerState

/-- Mutations of the audit collection. -/
def IsAudit (m : Mutation) : Prop := m.collection = auditCollection

section
variable {ω η : Type} [LogOplog ω]

/-- The number stands for the mutation: its key had it, or had none and the mutation was appended
under it, behind audit records. -/
def Answers (st : ServerState ω η) (m : Mutation) (seq : ℕ) (st' : ServerState ω η) : Prop :=
  (st.scopedWriteIds (writeKey m) = some seq ∧ Extends IsAudit st st') ∨
    (st.scopedWriteIds (writeKey m) = none ∧
      ∃ audits e, toEntries st'.oplog = toEntries st.oplog ++ audits ++ [e] ∧
        (∀ a ∈ audits, IsAudit a.mutation) ∧ e.mutation = m ∧ e.seq = seq)

variable [Formatting] [Surroundings]

/-- The decisions and the numbers account for what a push made of its mutations. -/
inductive Accounts (cp : ControlPlane η) (req : PushRequest) : ServerState ω η → List Mutation →
    List GovernanceDecision → List ℕ → ServerState ω η → Prop where
  | nil (st : ServerState ω η) : Accounts cp req st [] [] [] st
  | rejected {st st₁ st' m rest crossTenant d ds seqs}
      (head : st.pushMutation cp req m = (.ok ⟨none, crossTenant, d⟩, st₁))
      (reject : ControlPlane.isReject d = true) (log : Extends IsAudit st st₁)
      (tail : Accounts cp req st₁ rest ds seqs st') :
      Accounts cp req st (m :: rest) (d :: ds) seqs st'
  | accepted {st st₁ st' m rest d ds seq seqs}
      (head : st.pushMutation cp req m = (.ok ⟨some seq, false, d⟩, st₁))
      (keep : ControlPlane.isReject d = false) (log : st.Answers m seq st₁)
      (tail : Accounts cp req st₁ rest ds seqs st') :
      Accounts cp req st (m :: rest) (d :: ds) (seq :: seqs) st'

end

/-! ## One mutation -/

section
variable {ω η : Type} [LogOplog ω] [Formatting] [Surroundings] {cp : ControlPlane η}
  {st st' : ServerState ω η} {req : PushRequest} {m : Mutation}

/-- Settling a decision appends audit records. -/
lemma settle_extends_audit (st : ServerState ω η) (stage tenantId nameSpace : String)
    (writeId : Option String) (d : GovernanceDecision) :
    Extends IsAudit st (st.settle stage tenantId nameSpace writeId d) :=
  (settle_grows (fun _ _ _ _ _ _ => rfl) st stage writeId d).extends

/-- A mutation that the server takes is answered by its number. -/
lemma Takes.answers {seq : ℕ} (h : Takes cp req st m seq st') : st.Answers m seq st' := by
  have hsettle : Extends IsAudit st (st.decided cp req m) :=
    settle_extends_audit (st.decisionOn cp req m).2 "write" req.tenantId req.nameSpace _ _
  have hkeys : (st.decided cp req m).scopedWriteIds = st.scopedWriteIds :=
    settle_scopedWriteIds _ _ _ _ _ _
  rcases appendMutation_cases h.appended with ⟨hkey, rfl⟩ | ⟨hnew, e, hentries, hm, hseq⟩
  · exact .inl ⟨hkeys ▸ hkey, hsettle⟩
  · obtain ⟨audits, hadded, haudits⟩ := hsettle
    exact .inr ⟨hkeys ▸ hnew, audits, e, by rw [hentries, hadded], haudits, hm, hseq⟩

/-- A mutation without a number was rejected, and audit records are all that it left. -/
lemma pushMutation_refused {pushed : Pushed} (h : st.pushMutation cp req m = (.ok pushed, st'))
    (hnone : pushed.accepted = none) :
    ControlPlane.isReject pushed.decision = true ∧ Extends IsAudit st st' := by
  have hrefused : ∀ {st₀ : ServerState ω η} {crossTenant d}, SameLog st st₀ →
      ControlPlane.isReject d = true → st₀.pushRefused req m crossTenant d = (.ok pushed, st') →
      ControlPlane.isReject pushed.decision = true ∧ Extends IsAudit st st' := by
    intro st₀ crossTenant d hsame hd hout
    obtain ⟨hpushed, rfl⟩ := Prod.mk.inj hout
    rw [← Except.ok.inj hpushed]
    exact ⟨hd, (Grows.of_sameLog hsame (settle_grows (fun _ _ _ _ _ _ => rfl) st₀ _ _ d)).extends⟩
  unfold ServerState.pushMutation at h
  have hsame : SameLog st (st.containmentGate req.tenantId req.nameSpace).2 := ⟨rfl, rfl, rfl⟩
  cases hgate : st.containmentGate req.tenantId req.nameSpace with
  | mk gate st₁ =>
    rw [hgate] at h hsame
    cases gate with
    | some d => exact hrefused hsame (containmentGate_reject (by rw [hgate])) h
    | none =>
      dsimp only at h
      split at h
      · exact hrefused hsame rfl h
      · split_ifs at h
        · exact hrefused (hsame.trans (countCrossTenantRejection_sameLog st₁)) rfl h
        · have hdecision := hsame.trans (writeDecision_sameLog cp st₁ req m)
          rw [pushChecked] at h
          dsimp only at h
          split_ifs at h with hreject
          · exact hrefused hdecision hreject h
          · split at h
            · cases (Prod.mk.inj h).1
            · rw [← Except.ok.inj (Prod.mk.inj h).1] at hnone
              cases hnone

/-! ## All of them -/

/-- The loop accounts for its mutations. -/
lemma pushLoop_accounts {ms : List Mutation} {outcomes : List Pushed}
    (h : pushLoop cp st req ms = (.ok outcomes, st')) :
    Accounts cp req st ms (outcomes.map Pushed.decision) (outcomes.filterMap Pushed.accepted)
      st' := by
  induction ms generalizing st outcomes with
  | nil =>
    obtain ⟨houtcomes, rfl⟩ := Prod.mk.inj h
    rw [← Except.ok.inj houtcomes]
    exact .nil st
  | cons m rest ih =>
    rw [pushLoop] at h
    split at h
    · cases (Prod.mk.inj h).1
    · next pushed st₁ hpushed =>
      split at h
      · cases (Prod.mk.inj h).1
      · next outcomes' st₂ hrest =>
        obtain ⟨houtcomes, rfl⟩ := Prod.mk.inj h
        rw [← Except.ok.inj houtcomes, List.map_cons]
        obtain ⟨accepted, crossTenant, d⟩ := pushed
        cases accepted with
        | none =>
          obtain ⟨hreject, hlog⟩ := pushMutation_refused hpushed rfl
          exact .rejected hpushed hreject hlog (ih hrest)
        | some seq =>
          have htakes := takes_of_pushMutation hpushed rfl
          have hout := htakes.pushMutation
          rw [hpushed] at hout
          obtain ⟨-, rfl, rfl⟩ := Pushed.mk.inj (Except.ok.inj (Prod.mk.inj hout).1)
          exact .accepted hpushed htakes.allowed htakes.answers (ih hrest)

variable {ms : List Mutation} {ds : List GovernanceDecision} {seqs : List ℕ}

/-- There is one decision for each mutation. -/
lemma Accounts.audit_length (h : Accounts cp req st ms ds seqs st') : ds.length = ms.length := by
  induction h with
  | nil st => rfl
  | rejected head reject log tail ih => rw [List.length_cons, List.length_cons, ih]
  | accepted head keep log tail ih => rw [List.length_cons, List.length_cons, ih]

/-- There is one number for each decision that is no rejection. -/
lemma Accounts.seqs_length (h : Accounts cp req st ms ds seqs st') :
    seqs.length = ds.countP fun d => !ControlPlane.isReject d := by
  induction h with
  | nil st => rfl
  | rejected head reject log tail ih => rw [List.countP_cons_of_neg (by simp [reject]), ih]
  | accepted head keep log tail ih =>
    rw [List.length_cons, List.countP_cons_of_pos (by simp [keep]), ih]

/-- The mutations whose decisions are no rejections. -/
def unrejected (ms : List Mutation) (ds : List GovernanceDecision) : List Mutation :=
  ((ms.zip ds).filter fun p => !ControlPlane.isReject p.2).map Prod.fst

/-- Outside the audit collection, the log grows by mutations that were not rejected, in order. -/
lemma Accounts.log (h : Accounts cp req st ms ds seqs st') :
    ∃ added, toEntries st'.oplog = toEntries st.oplog ++ added ∧
      ((added.filter fun e => e.mutation.collection ≠ auditCollection).map
        OplogEntry.mutation).Sublist (unrejected ms ds) := by
  have hnone : ∀ {audits : List OplogEntry}, (∀ a ∈ audits, IsAudit a.mutation) →
      (audits.filter fun e => e.mutation.collection ≠ auditCollection) = [] := by
    intro audits haudits
    refine List.filter_eq_nil_iff.mpr fun a ha => ?_
    have haudit : a.mutation.collection = auditCollection := haudits a ha
    simp [haudit]
  induction h with
  | nil st => exact ⟨[], (List.append_nil _).symm, List.nil_sublist _⟩
  | @rejected st st₁ st' m rest crossTenant d ds seqs head reject log tail ih =>
    obtain ⟨audits, haudits, hall⟩ := log
    obtain ⟨added, hadded, hsub⟩ := ih
    refine ⟨audits ++ added, by rw [hadded, haudits, List.append_assoc], ?_⟩
    rw [List.filter_append, hnone hall, List.nil_append]
    have hskip : unrejected (m :: rest) (d :: ds) = unrejected rest ds := by
      simp [unrejected, reject]
    rwa [hskip]
  | @accepted st st₁ st' m rest d ds seq seqs head keep log tail ih =>
    obtain ⟨added, hadded, hsub⟩ := ih
    have htake : unrejected (m :: rest) (d :: ds) = m :: unrejected rest ds := by
      simp [unrejected, keep]
    rw [htake]
    rcases log with ⟨-, audits, haudits, hall⟩ | ⟨-, audits, e, haudits, hall, rfl, -⟩
    · refine ⟨audits ++ added, by rw [hadded, haudits, List.append_assoc], ?_⟩
      rw [List.filter_append, hnone hall, List.nil_append]
      exact hsub.cons m
    · refine ⟨audits ++ [e] ++ added, by rw [hadded, haudits]; simp, ?_⟩
      rw [List.filter_append, List.filter_append, hnone hall, List.nil_append, List.map_append]
      refine List.Sublist.append (?_ : List.Sublist _ [e.mutation]) hsub
      exact List.filter_sublist.map OplogEntry.mutation

/-- **Push accounting.** The answer to a push by the request's own node and tenant has one decision
for each mutation and one number for each decision that is no rejection, both in the order of the
request, and no entry outside the audit collection is appended for a rejected mutation. -/
theorem push_accounting {principal : AuthPrincipal} {resp : PushResponse}
    (hnode : req.nodeId = principal.nodeId) (htenant : req.tenantId = principal.tenantId)
    (h : st.processPush cp req principal = (.ok resp, st')) :
    Accounts cp req st req.mutations resp.audit resp.acceptedSeqs st' ∧
      resp.audit.length = req.mutations.length ∧
      resp.acceptedSeqs.length = (resp.audit.countP fun d => !ControlPlane.isReject d) ∧
      ∃ added, toEntries st'.oplog = toEntries st.oplog ++ added ∧
        ((added.filter fun e => e.mutation.collection ≠ auditCollection).map
          OplogEntry.mutation).Sublist (unrejected req.mutations resp.audit) := by
  have haccounts : Accounts cp req st req.mutations resp.audit resp.acceptedSeqs st' := by
    rw [processPush, if_neg (not_not.mpr hnode), if_neg (not_not.mpr htenant)] at h
    split at h
    · cases (Prod.mk.inj h).1
    · next outcomes st₁ hloop =>
      obtain ⟨hresp, rfl⟩ := Prod.mk.inj h
      rw [← Except.ok.inj hresp]
      exact pushLoop_accounts hloop
  exact ⟨haccounts, haccounts.audit_length, haccounts.seqs_length, haccounts.log⟩

end
end ServerState

section
attribute [local instance] Formatting.sample Surroundings.sample

/-- A mutation of another namespace, which a push to `"c"` refuses. -/
def sampleForeignNamespace : Mutation := .sample "x" "tenant" "d" .insert none 1 "1-0-aaaa" "w3"

/-- A push of a stray mutation and an insert. -/
theorem ServerState.push_accounting_sample :
    (sampleServer.processPush ControlPlane.default
        (samplePush [sampleForeignNamespace, sampleClientInsert]) samplePrincipal).1 =
      .ok ⟨[3], 3, 0, 1, [⟨.reject, "cross_tenant_or_namespace_mutation"⟩,
        ⟨.allow, "trust_score:1.00"⟩]⟩ ∧ [3].length = 1 := by
  have hpush : (sampleServer.processPush ControlPlane.default
      (samplePush [sampleForeignNamespace, sampleClientInsert]) samplePrincipal).1 =
        .ok ⟨[3], 3, 0, 1, [⟨.reject, "cross_tenant_or_namespace_mutation"⟩,
          ⟨.allow, "trust_score:1.00"⟩]⟩ := by decide +kernel
  obtain ⟨-, -, hseqs, -⟩ :=
    ServerState.push_accounting (rfl : (samplePush _).nodeId = samplePrincipal.nodeId) rfl
      (Prod.fst_eq_iff.mp hpush)
  exact ⟨hpush, hseqs⟩

end
end Rango
