import Rango.Server.StateTheorems

/-!
# What a server takes

`Takes` is what speaks for a mutation at its turn in a push: the checks it passes and the
number under which the log holds it then. A mutation is accepted exactly when the server takes
it, and a whole push is accepted exactly when the server takes its mutations one after another
(`TakesAll`).
-/

namespace Rango

namespace ServerState

section
variable {ω η : Type} [Formatting] [Surroundings] [Oplog ω] {cp : ControlPlane η}
  {st st' : ServerState ω η} {req : PushRequest} {m : Mutation} {seq : ℕ}

/-- The decision on a mutation of a push that passed the checks before it. -/
def decisionOn (cp : ControlPlane η) (st : ServerState ω η) (req : PushRequest) (m : Mutation) :
    GovernanceDecision × ServerState ω η :=
  (st.containmentGate req.tenantId req.nameSpace).2.writeDecision cp req m

/-- The state once that decision is recorded. -/
def decided (cp : ControlPlane η) (st : ServerState ω η) (req : PushRequest) (m : Mutation) :
    ServerState ω η :=
  (st.decisionOn cp req m).2.settle "write" req.tenantId req.nameSpace (some m.writeId)
    (st.decisionOn cp req m).1

/-- The server takes a mutation under a number of its log. -/
structure Takes (cp : ControlPlane η) (req : PushRequest) (st : ServerState ω η) (m : Mutation)
    (seq : ℕ) (st' : ServerState ω η) : Prop where
  gate : (st.containmentGate req.tenantId req.nameSpace).1 = none
  valid : m.validateMetadata = .ok ()
  tenant : m.metadata.tenantId = req.tenantId
  nameSpace : m.metadata.nameSpace = req.nameSpace
  allowed : ControlPlane.isReject (st.decisionOn cp req m).1 = false
  appended : (st.decided cp req m).appendMutation m req.tenantId req.nameSpace = (.ok seq, st')

/-- What becomes of a mutation that the server takes. -/
lemma Takes.pushMutation (h : Takes cp req st m seq st') :
    st.pushMutation cp req m = (.ok ⟨some seq, false, (st.decisionOn cp req m).1⟩, st') := by
  have hgate := Prod.fst_eq_iff.mp h.gate
  have hscope : ¬ (m.metadata.tenantId ≠ req.tenantId ∨ m.metadata.nameSpace ≠ req.nameSpace) := by
    simp [h.tenant, h.nameSpace]
  have happended := h.appended
  rw [decided] at happended
  rw [ServerState.pushMutation, hgate, h.valid]
  dsimp only
  rw [if_neg hscope, pushChecked]
  have hallowed := h.allowed
  rw [decisionOn] at hallowed happended ⊢
  dsimp only
  rw [hallowed, happended]
  rfl

/-- **Acceptance.** The mutations that a push accepts are those that the server takes. -/
theorem takes_of_pushMutation {pushed : Pushed}
    (h : st.pushMutation cp req m = (.ok pushed, st')) (hseq : pushed.accepted = some seq) :
    Takes cp req st m seq st' := by
  unfold ServerState.pushMutation at h
  cases hgate : st.containmentGate req.tenantId req.nameSpace with
  | mk gate st₁ =>
    rw [hgate] at h
    cases gate with
    | some d =>
      rw [pushRefused_accepted h] at hseq
      cases hseq
    | none =>
      dsimp only at h
      cases hvalid : m.validateMetadata with
      | error err =>
        rw [hvalid] at h
        rw [pushRefused_accepted h] at hseq
        cases hseq
      | ok =>
        rw [hvalid] at h
        dsimp only at h
        split_ifs at h with hscope
        · rw [pushRefused_accepted h] at hseq
          cases hseq
        · have hst : st₁ = (st.containmentGate req.tenantId req.nameSpace).2 := by rw [hgate]
          rw [not_or, not_not, not_not] at hscope
          rw [hst, pushChecked] at h
          dsimp only at h
          split_ifs at h with hreject
          · rw [pushRefused_accepted h] at hseq
            cases hseq
          · split at h
            · cases (Prod.mk.inj h).1
            · next seq' st₂ happended =>
              obtain ⟨hpushed, rfl⟩ := Prod.mk.inj h
              rw [← Except.ok.inj hpushed] at hseq
              obtain rfl := Option.some.inj hseq
              exact
                { gate := by rw [hgate]
                  valid := hvalid
                  tenant := hscope.1
                  nameSpace := hscope.2
                  allowed := by simpa [decisionOn] using hreject
                  appended := happended }

/-- The server takes mutations one after another, each under a number. -/
inductive TakesAll (cp : ControlPlane η) (req : PushRequest) :
    ServerState ω η → List Mutation → List ℕ → ServerState ω η → Prop where
  | nil (st : ServerState ω η) : TakesAll cp req st [] [] st
  | cons {st st₁ st' m rest seq seqs} (head : Takes cp req st m seq st₁)
      (tail : TakesAll cp req st₁ rest seqs st') :
      TakesAll cp req st (m :: rest) (seq :: seqs) st'

/-- A push in which every mutation is accepted. -/
theorem takesAll_iff {ms : List Mutation} {seqs : List ℕ} :
    TakesAll cp req st ms seqs st' ↔
      ∃ outcomes, pushLoop cp st req ms = (.ok outcomes, st') ∧
        outcomes.map Pushed.accepted = seqs.map some := by
  constructor
  · intro h
    induction h with
    | nil st => exact ⟨[], rfl, rfl⟩
    | @cons st st₁ st' m rest seq seqs head tail ih =>
      obtain ⟨outcomes, hloop, haccepted⟩ := ih
      refine ⟨⟨some seq, false, (st.decisionOn cp req m).1⟩ :: outcomes, ?_, ?_⟩
      · rw [pushLoop, head.pushMutation]
        dsimp only
        rw [hloop]
      · rw [List.map_cons, List.map_cons, haccepted]
  · rintro ⟨outcomes, hloop, haccepted⟩
    induction ms generalizing st seqs outcomes with
    | nil =>
      obtain ⟨houtcomes, rfl⟩ := Prod.mk.inj hloop
      rw [← Except.ok.inj houtcomes] at haccepted
      rw [List.map_eq_nil_iff.mp haccepted.symm]
      exact .nil st
    | cons m rest ih =>
      rw [pushLoop] at hloop
      split at hloop
      · cases (Prod.mk.inj hloop).1
      · next pushed st₁ hpushed =>
        split at hloop
        · cases (Prod.mk.inj hloop).1
        · next outcomes' st₂ hrest =>
          obtain ⟨houtcomes, rfl⟩ := Prod.mk.inj hloop
          rw [← Except.ok.inj houtcomes] at haccepted
          cases seqs with
          | nil => cases haccepted
          | cons seq seqs =>
            obtain ⟨hseq, htail⟩ := List.cons.inj haccepted
            exact .cons (takes_of_pushMutation hpushed hseq) (ih _ hrest htail)

/-- A push has one outcome for each of its mutations. -/
lemma pushLoop_length {ms : List Mutation} {outcomes : List Pushed}
    (h : pushLoop cp st req ms = (.ok outcomes, st')) : outcomes.length = ms.length := by
  induction ms generalizing st outcomes with
  | nil =>
    rw [← Except.ok.inj (Prod.mk.inj h).1]
    rfl
  | cons m rest ih =>
    rw [pushLoop] at h
    split at h
    · cases (Prod.mk.inj h).1
    · split at h
      · cases (Prod.mk.inj h).1
      · next hrest =>
        obtain ⟨houtcomes, rfl⟩ := Prod.mk.inj h
        rw [← Except.ok.inj houtcomes, List.length_cons, List.length_cons, ih hrest]

/-! ## Promotions -/

/-- The server takes the mutation of a promotion under a number of its log. -/
structure Promotes (cp : ControlPlane η) (req : PromoteRequest) (st : ServerState ω η) (seq : ℕ)
    (st' : ServerState ω η) : Prop where
  path : ControlPlane.isReject (ControlPlane.validateSemanticPromotion
    (promotionRequest req)) = false
  allowed : (st.promotionDecision cp req (promotionRequest req)).1.decision = .allow
  appended : ((st.promotionDecision cp req (promotionRequest req)).2.settle "promotion"
    req.tenantId req.nameSpace (some req.mutation.writeId)
      (st.promotionDecision cp req (promotionRequest req)).1).appendMutation req.mutation
        req.tenantId req.nameSpace = (.ok seq, st')

/-- A promotion accepts at most what the server takes. -/
theorem promotes_of_processPromote {req : PromoteRequest} {principal : AuthPrincipal}
    {resp : PromoteResponse} (h : st.processPromote cp req principal = (.ok resp, st'))
    (hseq : seq ∈ resp.acceptedSeqs) : Promotes cp req st seq st' := by
  have hrefused : ∀ {st₁ : ServerState ω η} {d}, st₁.promoteRefused req d ≠ (.ok resp, st') := by
    intro st₁ d heq
    rw [← Except.ok.inj (Prod.mk.inj heq).1] at hseq
    cases hseq
  have hchecked : st.promoteChecked cp req = (.ok resp, st') := by
    unfold processPromote at h
    split at h
    · exact absurd h hrefused
    · split at h
      · exact absurd h hrefused
      · split at h
        · exact absurd h hrefused
        · split_ifs at h
          · exact absurd h hrefused
          · exact h
  unfold promoteChecked at hchecked
  dsimp only at hchecked
  split_ifs at hchecked with hpath hallow
  · exact absurd hchecked hrefused
  · exact absurd hchecked hrefused
  · split at hchecked
    · cases (Prod.mk.inj hchecked).1
    · next seq' st₂ happended =>
      obtain ⟨hresp, rfl⟩ := Prod.mk.inj hchecked
      rw [← Except.ok.inj hresp, List.mem_singleton] at hseq
      rw [hseq]
      exact ⟨by simpa using hpath, not_not.mp hallow, happended⟩

/-! ## The default control plane -/

/-- The write id is known in its tenant and namespace, or the log takes a new entry. -/
def Stores (st : ServerState ω η) (m : Mutation) : Prop :=
  (st.lookupScopedWriteIdSeq m.metadata.tenantId m.metadata.nameSpace m.writeId).isSome ∨
    ∃ seq oplog, Oplog.append { seq := 0, timestamp := Surroundings.now st.tick, mutation := m
                                origin := .remote, applied := false, snapshotAnchor := none }
      st.oplog = (.ok seq, oplog)

omit [Formatting] in
/-- A valid mutation in the scope of its request is appended where it can be stored. -/
lemma appendMutation_ok_iff (hvalid : m.validateMetadata = .ok ()) :
    (∃ seq st', st.appendMutation m m.metadata.tenantId m.metadata.nameSpace = (.ok seq, st')) ↔
      st.Stores m := by
  have hscope : ¬ (m.metadata.tenantId ≠ m.metadata.tenantId ∨
      m.metadata.nameSpace ≠ m.metadata.nameSpace) := by simp
  rw [Stores, appendMutation, hvalid]
  dsimp only
  rw [if_neg hscope]
  cases st.lookupScopedWriteIdSeq m.metadata.tenantId m.metadata.nameSpace m.writeId with
  | some existing => exact iff_of_true ⟨existing, st, rfl⟩ (Or.inl rfl)
  | none =>
    dsimp only
    rcases Oplog.append { seq := 0, timestamp := Surroundings.now st.tick, mutation := m
                          origin := .remote, applied := false, snapshotAnchor := none }
      st.oplog with ⟨result, oplog⟩
    cases result with
    | error err => simp
    | ok seq => exact iff_of_true ⟨seq, _, rfl⟩ (Or.inr ⟨seq, oplog, rfl⟩)

end

section
variable {ω : Type} [Formatting] [Surroundings] [Oplog ω] {st : ServerState ω Unit}
  {req : PushRequest} {m : Mutation}

/-- What a server with the default control plane takes in a calm scope: a valid mutation of the
request's own tenant and namespace, trusted enough, that its log can store. -/
theorem takes_default_iff (hcalm : st.Calm req.tenantId req.nameSpace)
    (hvalid : m.validateMetadata = .ok ()) (htrust : F64.quarter.le m.metadata.trustScore = true) :
    (∃ seq st', Takes .default req st m seq st') ↔
      m.metadata.tenantId = req.tenantId ∧ m.metadata.nameSpace = req.nameSpace ∧
        (st.decided .default req m).Stores m := by
  constructor
  · rintro ⟨seq, st', h⟩
    refine ⟨h.tenant, h.nameSpace, (appendMutation_ok_iff hvalid).mp ⟨seq, st', ?_⟩⟩
    rw [h.tenant, h.nameSpace]
    exact h.appended
  · rintro ⟨htenant, hnamespace, hstores⟩
    obtain ⟨seq, st', happend⟩ := (appendMutation_ok_iff hvalid).mpr hstores
    rw [htenant, hnamespace] at happend
    have hallowed : ControlPlane.isReject (st.decisionOn .default req m).1 = false := by
      have hdecision : (st.decisionOn .default req m).1 =
          normalizeWriteDecision (pushDecision .default req m ()).1 := rfl
      rw [hdecision, isReject_normalizeWriteDecision]
      exact (pushDecision_default hvalid).mpr htrust
    exact ⟨seq, st', hcalm.containmentGate, hvalid, htenant, hnamespace, hallowed, happend⟩

end
end ServerState
end Rango
