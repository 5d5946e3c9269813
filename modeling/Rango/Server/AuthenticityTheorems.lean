import Rango.Lib.Runs
import Rango.Server.AcceptanceTheorems
import Rango.Server.AuditTheorems

/-!
# Authenticity of the audit trail

No check of a push or a promotion looks at the name of the collection, so a client's mutation that
names the audit collection is stored when its turn comes and nothing else stops it.
`audit_authentic`: the audit collection holds the server's own records alone as long as the checks
stop every such mutation, and only then where the log takes what it is given.
-/

namespace Rango

/-- The entry is one that `persist_audit_evidence` writes. -/
def OplogEntry.IsAudit [Formatting] (e : OplogEntry) : Prop :=
  ∃ stage tenantId nameSpace writeId d eventNum t seq,
    e = (Atomic.auditEntry stage tenantId nameSpace writeId d eventNum t).withSeq seq

/-- All entries of the audit collection are the server's own records. -/
def ServerState.Authentic {ω : Type} [Formatting] [LogOplog ω] (w : ω) : Prop :=
  ∀ e ∈ toEntries w, e.mutation.collection = auditCollection → e.IsAudit

/-! ## The checks at a turn -/

section
variable {ω η : Type} [Formatting] [Surroundings] [Oplog ω] (cp : ControlPlane η)

/-- Nothing stops a mutation of a push in this state: its scope is not contained, it is valid and
names the scope of the request, the control plane does not reject it, and its write id is new. -/
structure PushRequest.Passes (st : ServerState ω η) (req : PushRequest) (m : Mutation) : Prop
    extends m.Fits req.tenantId req.nameSpace where
  gate : (st.containmentGate req.tenantId req.nameSpace).1 = none
  allowed : ControlPlane.isReject (st.decisionOn cp req m).1 = false
  new : st.lookupScopedWriteIdSeq req.tenantId req.nameSpace m.writeId = none

/-- At the turn of each of these mutations that names the audit collection, something stops it.
The state at a turn is the one that the mutations before it leave. -/
def PushRequest.StopsForgeries (req : PushRequest) : ServerState ω η → List Mutation → Prop
  | _, [] => True
  | st, m :: rest =>
    (m.collection = auditCollection → ¬ req.Passes cp st m) ∧
      ∀ pushed st', st.pushMutation cp req m = (.ok pushed, st') → StopsForgeries req st' rest

namespace ServerState

/-- The server stops each mutation of the event that names the audit collection. -/
def StopsForgeries (st : ServerState ω η) : ServerEvent η → Prop
  | .push req principal =>
    req.nodeId = principal.nodeId → req.tenantId = principal.tenantId →
      req.StopsForgeries cp st req.mutations
  | .promote req principal =>
    req.nodeId = principal.nodeId → req.tenantId = principal.tenantId →
      req.mutation.collection = auditCollection → ¬ req.Admits cp st
  | _ => True

/-- A push or a promotion gets a response: the log took what the request had to store. -/
def Responds (st : ServerState ω η) : ServerEvent η → Prop
  | .push req principal => ∃ resp, (st.processPush cp req principal).1 = .ok resp
  | .promote req principal => ∃ resp, (st.processPromote cp req principal).1 = .ok resp
  | _ => True

end ServerState
end

namespace ServerState

section
variable {ω η : Type} [Formatting] [Surroundings] [LogOplog ω] {cp : ControlPlane η}
  {st st' : ServerState ω η}

/-! ## Requests keep the trail authentic -/

omit [Surroundings] in
lemma Authentic.append {w : ω} (h : Authentic w) {e : OplogEntry}
    (he : e.mutation.collection = auditCollection → ∀ seq, (e.withSeq seq).IsAudit) :
    Authentic (Oplog.append e w).2 := by
  intro x hx hcollection
  rcases happend : Oplog.append e w with ⟨err | seq, w'⟩
  · rw [happend, LogOplog.append_error _ _ _ _ happend] at hx
    exact h x hx hcollection
  · rw [happend, LogOplog.append_ok _ _ _ _ happend] at hx
    rcases List.mem_append.mp hx with hx | hx
    · exact h x hx hcollection
    · rw [List.mem_singleton.mp hx] at hcollection ⊢
      exact he hcollection seq

/-- A decision is recorded by one of the server's own records. -/
lemma Authentic.settle (h : Authentic st.oplog) (stage tenantId nameSpace : String)
    (writeId : Option String) (d : GovernanceDecision) :
    Authentic (st.settle stage tenantId nameSpace writeId d).oplog := by
  show Authentic (st.persistAuditEvidence stage tenantId nameSpace writeId d).2.oplog
  simp only [persistAuditEvidence]
  split
  · exact h
  · have happend := h.append (e := Atomic.auditEntry stage tenantId nameSpace writeId d
      (st.auditCounter + 1) (Surroundings.auditClock st.tick))
      fun _ seq => ⟨_, _, _, _, _, _, _, seq, rfl⟩
    simp only [Atomic.auditEntry] at happend
    split
    · next hout => rwa [hout] at happend
    · next hout =>
      rw [indexMutation_oplog]
      rwa [hout] at happend

lemma Authentic.appendMutation (h : Authentic st.oplog) (m : Mutation)
    (tenantId nameSpace : String) (hm : m.Fits tenantId nameSpace →
      st.lookupScopedWriteIdSeq tenantId nameSpace m.writeId = none →
        m.collection ≠ auditCollection) :
    Authentic (st.appendMutation m tenantId nameSpace).2.oplog := by
  simp only [ServerState.appendMutation]
  split
  · exact h
  · next hvalid =>
    split_ifs with hscope
    · exact h
    · rw [not_or, not_not, not_not] at hscope
      split
      · exact h
      · next hnew =>
        have happend := h.append (e := st.remoteEntry m) fun hcollection =>
          absurd hcollection (hm ⟨hvalid, hscope.1, hscope.2⟩ hnew)
        simp only [remoteEntry] at happend
        split
        · next hout => rwa [hout] at happend
        · next hout =>
          rw [indexMutation_oplog]
          rwa [hout] at happend

/-- **One turn** keeps the trail authentic when the checks stop a forgery. -/
lemma Authentic.pushMutation {req : PushRequest} {m : Mutation} (h : Authentic st.oplog)
    (hm : m.collection = auditCollection → ¬ req.Passes cp st m) :
    Authentic (st.pushMutation cp req m).2.oplog := by
  unfold ServerState.pushMutation
  cases hgate : st.containmentGate req.tenantId req.nameSpace with
  | mk gate st₁ =>
    have hst₁ : st₁ = (st.containmentGate req.tenantId req.nameSpace).2 := by rw [hgate]
    have hlog : Authentic st₁.oplog := by
      rw [hst₁]
      exact h
    cases gate with
    | some d => exact hlog.settle _ _ _ _ _
    | none =>
      dsimp only
      split
      · exact hlog.settle _ _ _ _ _
      · next hvalid =>
        split_ifs with hscope
        · have hcounted : Authentic st₁.countCrossTenantRejection.oplog := hlog
          exact hcounted.settle _ _ _ _ _
        · rw [not_or, not_not, not_not] at hscope
          have hdecision : st₁.writeDecision cp req m = st.decisionOn cp req m := by
            rw [hst₁]
            rfl
          rw [pushChecked, hdecision]
          have hhooks : Authentic (st.decisionOn cp req m).2.oplog := h
          by_cases hreject : ControlPlane.isReject (st.decisionOn cp req m).1 = true
          · dsimp only
            rw [if_pos hreject]
            exact hhooks.settle _ _ _ _ _
          · dsimp only
            rw [if_neg hreject]
            have hsettled := hhooks.settle "write" req.tenantId req.nameSpace (some m.writeId)
              (st.decisionOn cp req m).1
            have happend := hsettled.appendMutation m req.tenantId req.nameSpace
              fun hfits hnew hcollection => by
                rw [lookupScopedWriteIdSeq, settle_scopedWriteIds] at hnew
                exact hm hcollection ⟨hfits, by rw [hgate], by simpa using hreject, hnew⟩
            split
            · next hout => rwa [hout] at happend
            · next hout => rwa [hout] at happend

/-- So do the turns of a push. -/
lemma Authentic.pushLoop {req : PushRequest} {ms : List Mutation} (h : Authentic st.oplog)
    (hms : req.StopsForgeries cp st ms) : Authentic (pushLoop cp st req ms).2.oplog := by
  induction ms generalizing st with
  | nil => exact h
  | cons m rest ih =>
    have hturn := h.pushMutation hms.1
    rw [ServerState.pushLoop]
    cases hout : st.pushMutation cp req m with
    | mk result st₁ =>
      rw [hout] at hturn
      cases result with
      | error fault => exact hturn
      | ok pushed =>
        have hrest := ih hturn (hms.2 pushed st₁ hout)
        dsimp only
        split
        · next hloop => rwa [hloop] at hrest
        · next hloop => rwa [hloop] at hrest

lemma Authentic.processPush {req : PushRequest} {principal : AuthPrincipal}
    (h : Authentic st.oplog) (hreq : StopsForgeries cp st (.push req principal)) :
    Authentic (st.processPush cp req principal).2.oplog := by
  unfold ServerState.processPush
  split_ifs with hnode htenant
  · have hcounted : Authentic st.countNonOwnerRejection.oplog := h
    exact hcounted.settle _ _ _ _ _
  · have hcounted : Authentic st.countCrossTenantRejection.oplog := h
    exact hcounted.settle _ _ _ _ _
  · have hloop := h.pushLoop (hreq (not_not.mp hnode) (not_not.mp htenant))
    split
    · next hout => rwa [hout] at hloop
    · next hout => rwa [hout] at hloop

lemma Authentic.processPull [Arithmetic] {req : PullRequest} {principal : AuthPrincipal}
    (readTier : MemoryTier) (h : Authentic st.oplog) :
    Authentic (st.processPull cp req principal readTier).2.oplog := by
  unfold ServerState.processPull
  split_ifs
  · have hcounted : Authentic st.countCrossTenantRejection.oplog := h
    exact hcounted.settle _ _ _ _ _
  · exact h.settle _ _ _ _ _
  · split
    · exact h
    · next scopedEntries _ =>
      have hread : Authentic (st.readDecision cp req readTier scopedEntries).2.oplog := h
      split
      next d filtered st₁ hout =>
        rw [hout] at hread
        split_ifs
        · exact hread.settle _ _ _ _ _
        · exact hread.settle _ _ _ _ _

lemma Authentic.promoteChecked {req : PromoteRequest} (h : Authentic st.oplog)
    (hfits : req.mutation.Fits req.tenantId req.nameSpace)
    (hreq : req.mutation.collection = auditCollection → ¬ req.Admits cp st) :
    Authentic (st.promoteChecked cp req).2.oplog := by
  unfold ServerState.promoteChecked
  dsimp only
  have hdecision : Authentic (st.promotionDecision cp req (promotionRequest req)).2.oplog := h
  split_ifs with hpath hallow
  · exact h.settle _ _ _ _ _
  · exact hdecision.settle _ _ _ _ _
  · have hsettled := hdecision.settle "promotion" req.tenantId req.nameSpace
      (some req.mutation.writeId) (st.promotionDecision cp req (promotionRequest req)).1
    have happend := hsettled.appendMutation req.mutation req.tenantId req.nameSpace
      fun _ hnew hcollection => by
        rw [lookupScopedWriteIdSeq, settle_scopedWriteIds] at hnew
        exact hreq hcollection ⟨hfits, by simpa using hpath, not_not.mp hallow, hnew⟩
    split
    · next hout => rwa [hout] at happend
    · next hout => rwa [hout] at happend

lemma Authentic.processPromote {req : PromoteRequest} {principal : AuthPrincipal}
    (h : Authentic st.oplog) (hreq : StopsForgeries cp st (.promote req principal)) :
    Authentic (st.processPromote cp req principal).2.oplog := by
  unfold ServerState.processPromote
  split
  · have hcounted : Authentic st.countNonOwnerRejection.oplog := h
    exact hcounted.settle _ _ _ _ _
  · next hnode =>
    split
    · have hcounted : Authentic st.countCrossTenantRejection.oplog := h
      exact hcounted.settle _ _ _ _ _
    · next htenant =>
      split
      · exact h.settle _ _ _ _ _
      · next hvalid =>
        split_ifs with hscope
        · have hcounted : Authentic st.countCrossTenantRejection.oplog := h
          exact hcounted.settle _ _ _ _ _
        · rw [not_or, not_not, not_not] at hscope
          exact h.promoteChecked ⟨hvalid, hscope.1, hscope.2⟩
            (hreq (not_not.mp hnode) (not_not.mp htenant))

/-- **One event** keeps the trail authentic when the server stops its forgeries. -/
lemma Authentic.step [Arithmetic] {ev : ServerEvent η} (h : Authentic st.oplog)
    (hev : StopsForgeries cp st ev) : Authentic (st.step cp ev).oplog := by
  cases ev with
  | push req principal => exact h.processPush hev
  | pull req principal readTier => exact h.processPull readTier
  | promote req principal => exact h.processPromote hev
  | retrieve req principal =>
    show Authentic (st.handleRetrievalRead req principal).2.oplog
    unfold handleRetrievalRead
    split_ifs
    · exact h
    · -- the record is written behind the containment, not before it
      have hregistered : Authentic (st.registerDecisionOutcome req.tenantId req.nameSpace
        ⟨.sanitize, "adapter_unavailable"⟩).oplog := h
      exact hregistered.settle "retrieval" req.tenantId req.nameSpace none _
  | restart hooks =>
    rw [ServerState.step, withControlPlane_oplog]
    exact h

/-! ## What passes is stored -/

/-- The log holds a client's mutation of the audit collection. -/
def Forged (w : ω) : Prop :=
  ∃ e ∈ toEntries w, e.mutation.collection = auditCollection ∧ e.origin = .remote

omit [Surroundings] in
lemma Forged.not_authentic {w : ω} (h : Forged w) : ¬ Authentic w := by
  intro hauthentic
  obtain ⟨e, he, hcollection, horigin⟩ := h
  obtain ⟨stage, tenantId, nameSpace, writeId, d, eventNum, t, seq, rfl⟩ :=
    hauthentic e he hcollection
  cases horigin

omit [Formatting] [Surroundings] in
lemma Forged.mono (h : Forged st.oplog) (hlog : Extends (fun _ => True) st st') :
    Forged st'.oplog := by
  obtain ⟨e, he, hforged⟩ := h
  exact ⟨e, hlog.mono he, hforged⟩

omit [Formatting] in
/-- A new mutation that fits is appended as the client's. -/
lemma appendMutation_forged {m : Mutation} {tenantId nameSpace : String} {seq : ℕ}
    (hfits : m.Fits tenantId nameSpace) (hcollection : m.collection = auditCollection)
    (hnew : st.lookupScopedWriteIdSeq tenantId nameSpace m.writeId = none)
    (hout : st.appendMutation m tenantId nameSpace = (.ok seq, st')) : Forged st'.oplog := by
  have hscope : ¬ (m.metadata.tenantId ≠ tenantId ∨ m.metadata.nameSpace ≠ nameSpace) := by
    simp [hfits.tenantId, hfits.nameSpace]
  rw [ServerState.appendMutation, hfits.valid] at hout
  dsimp only at hout
  rw [if_neg hscope, hnew] at hout
  dsimp only at hout
  split at hout
  · cases (Prod.mk.inj hout).1
  · next seq' w happend =>
    rw [← (Prod.mk.inj hout).2]
    refine ⟨(st.remoteEntry m).withSeq seq', ?_, hcollection, rfl⟩
    rw [indexMutation_oplog, LogOplog.append_ok _ _ _ _ happend]
    exact List.mem_append_right _ (List.mem_singleton_self _)

/-- A forgery that nothing stops at its turn is stored. -/
lemma pushMutation_forged {req : PushRequest} {m : Mutation} {pushed : Pushed}
    (h : req.Passes cp st m) (hcollection : m.collection = auditCollection)
    (hout : st.pushMutation cp req m = (.ok pushed, st')) : Forged st'.oplog := by
  have hgate := Prod.fst_eq_iff.mp h.gate
  have hscope : ¬ (m.metadata.tenantId ≠ req.tenantId ∨ m.metadata.nameSpace ≠ req.nameSpace) := by
    simp [h.tenantId, h.nameSpace]
  rw [ServerState.pushMutation, hgate, h.valid] at hout
  dsimp only at hout
  rw [if_neg hscope, pushChecked] at hout
  have hallowed := h.allowed
  rw [decisionOn] at hallowed
  dsimp only at hout
  rw [if_neg (by rw [hallowed]; decide)] at hout
  split at hout
  · cases (Prod.mk.inj hout).1
  · next seq st₂ happended =>
    rw [← (Prod.mk.inj hout).2]
    refine appendMutation_forged h.toFits hcollection ?_ happended
    rw [lookupScopedWriteIdSeq, settle_scopedWriteIds]
    exact h.new

/-- A push that leaves no forgery has stopped all of its own. -/
lemma stopsForgeries_of_pushLoop {req : PushRequest} {ms : List Mutation}
    {outcomes : List Pushed} (hloop : pushLoop cp st req ms = (.ok outcomes, st'))
    (hclean : ¬ Forged st'.oplog) : req.StopsForgeries cp st ms := by
  induction ms generalizing st outcomes with
  | nil => trivial
  | cons m rest ih =>
    rw [ServerState.pushLoop] at hloop
    split at hloop
    · cases (Prod.mk.inj hloop).1
    · next pushed st₁ hout =>
      split at hloop
      · cases (Prod.mk.inj hloop).1
      · next outcomes' st₂ hrest =>
        obtain ⟨-, rfl⟩ := Prod.mk.inj hloop
        refine ⟨fun hcollection hpasses => hclean ?_, fun pushed' st₁' hout' => ?_⟩
        · -- what the turn appends stays to the end of the loop
          have hgrows : Grows (fun _ => True) st₁ (pushLoop cp st₁ req rest).2 :=
            pushLoop_grows cp (fun _ _ _ _ _ _ => trivial) (fun _ _ _ => trivial) st₁
          rw [hrest] at hgrows
          exact (pushMutation_forged hpasses hcollection hout).mono hgrows.extends
        · rw [hout] at hout'
          obtain ⟨-, rfl⟩ := Prod.mk.inj hout'
          exact ih hrest

/-- **One event** that is answered and leaves no forgery has stopped its own. -/
lemma stopsForgeries_of_step [Arithmetic] {ev : ServerEvent η} (hanswers : Responds cp st ev)
    (hclean : ¬ Forged (st.step cp ev).oplog) : StopsForgeries cp st ev := by
  cases ev with
  | push req principal =>
    intro hnode htenant
    obtain ⟨resp, hresp⟩ := hanswers
    rw [ServerState.step] at hclean
    rw [ServerState.processPush, if_neg (not_not.mpr hnode), if_neg (not_not.mpr htenant)]
      at hresp hclean
    split at hresp
    · cases hresp
    · next outcomes st₁ hloop =>
      rw [hloop] at hclean
      exact stopsForgeries_of_pushLoop hloop hclean
  | promote req principal =>
    intro hnode htenant hcollection hadmits
    obtain ⟨resp, hresp⟩ := hanswers
    have hscope : ¬ (req.mutation.metadata.tenantId ≠ req.tenantId ∨
        req.mutation.metadata.nameSpace ≠ req.nameSpace) := by
      simp [hadmits.tenantId, hadmits.nameSpace]
    have hpath : ¬ ControlPlane.isReject (ControlPlane.validateSemanticPromotion
        (promotionRequest req)) = true := by
      rw [hadmits.path]
      decide
    rw [ServerState.step] at hclean
    rw [ServerState.processPromote, if_neg (not_not.mpr hnode), if_neg (not_not.mpr htenant),
      hadmits.valid] at hresp hclean
    dsimp only at hresp hclean
    rw [if_neg hscope, ServerState.promoteChecked] at hresp hclean
    dsimp only at hresp hclean
    rw [if_neg hpath, if_neg (not_not.mpr hadmits.allowed)] at hresp hclean
    split at hresp
    · cases hresp
    · next seq st₁ happended =>
      rw [happended] at hclean
      refine hclean (appendMutation_forged hadmits.toFits hcollection ?_ happended)
      rw [lookupScopedWriteIdSeq, settle_scopedWriteIds]
      exact hadmits.new
  | pull | retrieve | restart => trivial

/-! ## Runs -/

/-- **The audit trail is authentic** after every run in which the server stops each client's
mutation that names the audit collection. A run without storage errors needs this. -/
theorem audit_authentic [Arithmetic] {oplog : ω} (hstart : Authentic oplog) (hooks : η)
    (tick : ℕ) (events : List (ServerEvent η)) :
    (Runs.All (step cp) (StopsForgeries cp) (withControlPlane oplog hooks tick) events →
        Authentic ((withControlPlane oplog hooks tick).run cp events).oplog) ∧
      (Runs.All (step cp) (Responds cp) (withControlPlane oplog hooks tick) events →
        Authentic ((withControlPlane oplog hooks tick).run cp events).oplog →
          Runs.All (step cp) (StopsForgeries cp) (withControlPlane oplog hooks tick) events) := by
  constructor
  · intro hstops
    have hinvariant : ∀ (st : ServerState ω η) (ev : ServerEvent η), Authentic st.oplog →
        StopsForgeries cp st ev → Authentic (st.step cp ev).oplog := fun _ _ h hev => h.step hev
    apply hstops.invariant hinvariant
    rwa [withControlPlane_oplog]
  · intro hanswers hend
    generalize withControlPlane oplog hooks tick = st at hanswers hend ⊢
    induction events generalizing st with
    | nil => trivial
    | cons ev rest ih =>
      refine ⟨stopsForgeries_of_step hanswers.1 fun hforged => ?_, ih _ hanswers.2 hend⟩
      -- a forgery in the log stays there to the end of the run
      exact (hforged.mono (run_extends cp (fun _ _ _ _ _ _ _ _ => trivial)
        (fun _ _ _ _ => trivial) _)).not_authentic hend

end
end ServerState

section
attribute [local instance] Formatting.sample Surroundings.sample Arithmetic.sample

/-- A client's insert into the audit collection. -/
def sampleForgery : Mutation := { sampleClientInsert with collection := auditCollection }

/-- A push of a write and of a forgery under its write id, a pull, and a promotion of the forgery
by another node. -/
def sampleForgeryEvents : List (ServerEvent Unit) :=
  [.push (samplePush [sampleClientInsert, sampleForgery]) samplePrincipal,
    .pull samplePull samplePrincipal .state,
    .promote ⟨"node", "tenant", "c", sampleForgery, .episodic, .semantic, "candidate", 0⟩
      ⟨"other", "tenant"⟩]

/-- Every forgery is stopped, and the run leaves an authentic audit trail. -/
theorem ServerState.audit_authentic_sample :
    ServerState.Authentic (sampleServer.run .default sampleForgeryEvents).oplog := by
  have hstart : ServerState.Authentic MemLog.new := by
    simp [ServerState.Authentic]
  have hstops : Runs.All (ServerState.step .default) (ServerState.StopsForgeries .default)
      sampleServer sampleForgeryEvents := by
    refine ⟨fun _ _ => ⟨fun hcollection => absurd hcollection (by decide), ?_⟩, trivial, ?_,
      trivial⟩
    · -- the write id is known when the turn of the forgery comes
      intro pushed st' hout
      obtain rfl : (sampleServer.pushMutation .default
        (samplePush [sampleClientInsert, sampleForgery]) sampleClientInsert).2 = st' :=
          congrArg Prod.snd hout
      exact ⟨fun _ hpasses => absurd hpasses.new (by decide +kernel), fun _ _ _ => trivial⟩
    · exact fun hnode => absurd hnode (by decide)
  exact (ServerState.audit_authentic hstart () 0 sampleForgeryEvents).1 hstops

/-- A forged record is accepted by a push. -/
theorem forged_audit_accepted :
    ¬ ServerState.Authentic (sampleServer.run .default
      [.push (samplePush [sampleForgery]) samplePrincipal]).oplog := by
  intro hauthentic
  have hforged : ∃ e ∈ toEntries (sampleServer.run .default
      [.push (samplePush [sampleForgery]) samplePrincipal]).oplog,
        e.mutation.collection = auditCollection ∧ e.origin = .remote := by
    decide +kernel
  exact ServerState.Forged.not_authentic hforged hauthentic

end
end Rango
