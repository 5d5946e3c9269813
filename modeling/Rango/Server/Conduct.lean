import Rango.Lib.Histories
import Rango.Server.ConcurrentPushTheorems
import Rango.Server.ContainmentTheorems

/-!
# What a request does, step by step

`requestPool` runs any number of requests of every kind on one server, step by step. `Conduct` is
what the earlier steps of a request say about its next ones: the steps since it last stored a
mutation, the page that it has read, the number of the audit record that it is about to write,
and where it stands in storing. `ServerEvent.program_conduct` is that every request keeps to
`conductProtocol`, whatever the other requests, the hooks and the log answer it.
-/

namespace Rango

open Interleaving

/-- A step of a request. -/
abbrev RequestStep : Type := Step RequestOp.Res

namespace RequestOp

/-- The step appends a client's mutation. -/
def Appends : RequestOp → Prop
  | .server (.appendRemote _) => True
  | _ => False

instance : DecidablePred Appends
  | .server (.appendRemote _) => .isTrue trivial
  | .promotionPath .. => .isFalse id
  | .server .countNonOwnerRejection | .server .countCrossTenantRejection
  | .server (.containmentGate ..) | .server (.registerDecisionOutcome ..)
  | .server (.writePath ..) | .server (.readPath ..) | .server .countAudit
  | .server (.appendAudit _) | .server (.lookup ..) | .server (.indexLatest ..)
  | .server (.indexWriteId ..) | .server (.readSince ..) | .server (.checkpoint ..) => .isFalse id

end RequestOp

/-! ## Clearance -/

/-- The step is a check of the scope's gate that lets the request pass. -/
def RequestStep.Passes (scope : String × String) : RequestStep → Prop
  | ⟨.server (.containmentGate tenantId nameSpace), none⟩ => (tenantId, nameSpace) = scope
  | _ => False

/-- The step is a decision of the control plane by which the event may store the mutation. -/
def RequestStep.Lets {η : Type} (ev : ServerEvent η) (m : Mutation) : RequestStep → Prop
  | ⟨.server (.writePath ctx payload), d⟩ =>
    ∃ req principal, ev = .push req principal ∧ ctx.tenantId = req.tenantId ∧
      ctx.nameSpace = req.nameSpace ∧
      payload = .stateWithTrust (m.patch.getD Document.empty) m.metadata.trustScore ∧
      ControlPlane.isReject d = false
  | ⟨.promotionPath request payload, (d, _)⟩ =>
    ∃ req principal, ev = .promote req principal ∧ request = ServerState.promotionRequest req ∧
      payload = .stateWithTrust (m.patch.getD Document.empty) m.metadata.trustScore ∧
      d.decision = .allow
  | _ => False

/-- These steps of the event permit the mutation: the last check of the gate was one of its scope
and passed, and the control plane has let the mutation pass. -/
structure Permitted {η : Type} (ev : ServerEvent η) (m : Mutation) (steps : List RequestStep) :
    Prop where
  gate : ∃ before s after, steps = before ++ s :: after ∧ s.Passes (scopeOf m) ∧
    ∀ x ∈ after, x.1.checked = none
  decision : ∃ s ∈ steps, s.Lets ev m

/-- Among the steps is the writing of an audit record, as far as it is valid. -/
def Audited [Formatting] (stage tenantId nameSpace : String) (writeId : Option String)
    (d : GovernanceDecision) (steps : List RequestStep) : Prop :=
  ∃ eventNum t, ⟨.server .countAudit, (eventNum, t)⟩ ∈ steps ∧
    ((ServerState.auditMutation stage tenantId nameSpace writeId d eventNum t).validateMetadata =
      .ok () → ∃ r, ⟨.server (.appendAudit
        (Atomic.auditEntry stage tenantId nameSpace writeId d eventNum t)), r⟩ ∈ steps)

/-- By these steps of the event the mutation may be stored: they permit it, and the decision is
recorded. -/
structure Cleared {η : Type} [Formatting] (ev : ServerEvent η) (m : Mutation)
    (steps : List RequestStep) : Prop extends Permitted ev m steps where
  recorded : ∃ stage d, ControlPlane.isReject d = false ∧
    Audited stage m.metadata.tenantId m.metadata.nameSpace (some m.writeId) d steps

section
variable {η : Type} {ev : ServerEvent η} {m : Mutation} {steps added : List RequestStep}

/-- More steps that do not check the gate. -/
lemma Permitted.append (h : Permitted ev m steps) (hadded : ∀ x ∈ added, x.1.checked = none) :
    Permitted ev m (steps ++ added) := by
  obtain ⟨before, s, after, rfl, hpasses, hafter⟩ := h.gate
  obtain ⟨d, hd, hlets⟩ := h.decision
  refine ⟨⟨before, s, after ++ added, ?_, hpasses, ?_⟩, d, List.mem_append_left _ hd, hlets⟩
  · rw [List.append_assoc, List.cons_append]
  · intro x hx
    rcases List.mem_append.mp hx with hx | hx
    · exact hafter x hx
    · exact hadded x hx

variable [Formatting]

lemma Audited.mono {stage tenantId nameSpace : String} {writeId : Option String}
    {d : GovernanceDecision} {steps' : List RequestStep}
    (h : Audited stage tenantId nameSpace writeId d steps) (hsub : steps ⊆ steps') :
    Audited stage tenantId nameSpace writeId d steps' := by
  obtain ⟨eventNum, t, hcount, happend⟩ := h
  refine ⟨eventNum, t, hsub hcount, fun hvalid => ?_⟩
  obtain ⟨r, hr⟩ := happend hvalid
  exact ⟨r, hsub hr⟩

lemma Cleared.append (h : Cleared ev m steps) (hadded : ∀ x ∈ added, x.1.checked = none) :
    Cleared ev m (steps ++ added) := by
  obtain ⟨stage, d, hd, haudited⟩ := h.recorded
  exact ⟨h.toPermitted.append hadded, stage, d, hd, haudited.mono (List.subset_append_left _ _)⟩

end

/-! ## The protocol -/

/-- What a request has done so far. -/
structure Conduct where
  /-- the steps since it last appended a client's mutation -/
  recent : List RequestStep
  /-- the entries that it has read -/
  page : List OplogEntry
  /-- the number of the audit record that it has drawn -/
  drawn : Option ℕ
  /-- where it stands in storing a mutation -/
  store : PushPhase

namespace Conduct

/-- A request that has not begun. -/
def fresh : Conduct := ⟨[], [], none, .idle⟩

/-- The page after a step. -/
def nextPage (page : List OplogEntry) : RequestStep → List OplogEntry
  | ⟨.server (.readSince ..), .ok entries⟩ => entries
  | _ => page

/-- The number after a step. -/
def nextDrawn (drawn : Option ℕ) : RequestStep → Option ℕ
  | ⟨.server .countAudit, (eventNum, _)⟩ => some eventNum
  | ⟨.server (.appendAudit _), _⟩ => none
  | _ => drawn

/-- Where a request stands in storing after a step. -/
def nextStore (store : PushPhase) : RequestStep → PushPhase
  | ⟨.server o, r⟩ => store.next o r
  | ⟨.promotionPath .., _⟩ => store

/-- The conduct after a step. -/
def next (φ : Conduct) (s : RequestStep) : Conduct where
  recent := if s.1.Appends then [] else φ.recent ++ [s]
  page := nextPage φ.page s
  drawn := nextDrawn φ.drawn s
  store := nextStore φ.store s

/-- What the gate answers when it does not let a request pass is a rejection. -/
def Expected : RequestStep → Prop
  | ⟨.server (.containmentGate ..), some d⟩ => ControlPlane.isReject d = true
  | _ => True

/-- The steps that an event may take. -/
def allowed {η : Type} [Formatting] (ev : ServerEvent η) (φ : Conduct) : RequestOp → Prop
  | .server (.appendAudit e) => φ.store = .idle ∧
    ∃ eventNum stage tenantId nameSpace writeId d t, φ.drawn = some eventNum ∧
      e = Atomic.auditEntry stage tenantId nameSpace writeId d eventNum t
  | .server (.lookup tenantId nameSpace m) =>
    φ.store = .idle ∧ scopeOf m = (tenantId, nameSpace)
  | .server (.appendRemote m) => φ.store = .missed m ∧ m.validateMetadata = .ok () ∧
    ev.Submits m.metadata.tenantId m ∧ Cleared ev m φ.recent
  | .server (.indexLatest seq m) => φ.store = .stored seq m
  | .server (.indexWriteId seq m) => φ.store = .half seq m
  | .server (.readSince _ limit) => φ.store = .idle ∧ limit = pageLimit
  | _ => φ.store = .idle

/-- The request has gone on without a check of the gate, a read or an append. -/
structure Goes (φ ψ : Conduct) : Prop where
  recent : ∃ added, ψ.recent = φ.recent ++ added ∧ ∀ x ∈ added, x.1.checked = none
  page : ψ.page = φ.page
  store : ψ.store = φ.store

lemma Goes.refl (φ : Conduct) : Goes φ φ :=
  ⟨⟨[], (List.append_nil _).symm, by simp⟩, rfl, rfl⟩

lemma Goes.trans {φ ψ χ : Conduct} (h : Goes φ ψ) (h' : Goes ψ χ) : Goes φ χ := by
  obtain ⟨added, hadded, hall⟩ := h.recent
  obtain ⟨added', hadded', hall'⟩ := h'.recent
  refine ⟨⟨added ++ added', by rw [hadded', hadded, List.append_assoc], ?_⟩,
    h'.page.trans h.page, h'.store.trans h.store⟩
  intro x hx
  rcases List.mem_append.mp hx with hx | hx
  · exact hall x hx
  · exact hall' x hx

/-- What a request is permitted, it stays permitted. -/
lemma Goes.permitted {η : Type} {ev : ServerEvent η} {m : Mutation} {φ ψ : Conduct}
    (h : Goes φ ψ) (hpermitted : Permitted ev m φ.recent) : Permitted ev m ψ.recent := by
  obtain ⟨added, hadded, hall⟩ := h.recent
  rw [hadded]
  exact hpermitted.append hall

lemma Goes.subset {φ ψ : Conduct} (h : Goes φ ψ) : φ.recent ⊆ ψ.recent := by
  obtain ⟨added, hadded, -⟩ := h.recent
  rw [hadded]
  exact List.subset_append_left _ _

end Conduct

/-- What a reply hands out of a page: a pull under a principal of its tenant mutations of entries
in its scope, and no other request anything. -/
def ServerEvent.HandsOut {η : Type} (ev : ServerEvent η) (page : List OplogEntry)
    (reply : ServerReply) : Prop :=
  ∀ m ∈ reply.mutations, ∃ req principal readTier, ev = .pull req principal readTier ∧
    principal.tenantId = req.tenantId ∧
    ∃ e ∈ page, inPullScope req readTier e = true ∧
      m = annotateMutationForReadTier e.mutation readTier

/-- The protocol of an event. -/
def conductProtocol {η : Type} [Formatting] (ev : ServerEvent η) :
    Protocol Conduct RequestOp.Res :=
  .ofNext (Conduct.allowed ev) Conduct.Expected Conduct.next


namespace Atomic

section
variable {η : Type} [Formatting] {ev : ServerEvent η} {φ : Conduct}

/-! ## Pieces of requests -/

/-- A step and what follows it. -/
lemma conduct_ask {α : Type} {post : Conduct → α → Prop} {o : ServerOp} {f : o.Res → ServerProg α}
    (ho : φ.allowed ev (.server o))
    (hf : ∀ r, (conductProtocol ev).Follows post (φ.next ⟨.server o, r⟩) (lift (f r))) :
    (conductProtocol ev).Follows post φ (lift (ask o >>= f)) := by
  refine ⟨ho, ?_⟩
  rintro r ψ ⟨-, rfl⟩
  exact hf r

/-- A piece of a request and what follows it. -/
lemma conduct_bind {α β : Type} {mid : Conduct → β → Prop} {post : Conduct → α → Prop}
    {p : ServerProg β} {f : β → ServerProg α} (hp : (conductProtocol ev).Follows mid φ (lift p))
    (hf : ∀ ψ b, mid ψ b → (conductProtocol ev).Follows post ψ (lift (f b))) :
    (conductProtocol ev).Follows post φ (lift (p >>= f)) := by
  rw [lift, Prog.bind_eq, Prog.embed_bind]
  exact hp.bind hf

omit [Formatting] in
/-- A step that neither checks the gate nor reads nor stores. -/
lemma goes_next {o : ServerOp} (r : o.Res) (hchecks : RequestOp.checked (.server o) = none)
    (happends : ¬ RequestOp.Appends (.server o))
    (hpage : Conduct.nextPage φ.page ⟨.server o, r⟩ = φ.page)
    (hstore : φ.store.next o r = φ.store) :
    φ.Goes (φ.next ⟨.server o, r⟩) where
  recent := by
    refine ⟨[⟨.server o, r⟩], if_neg happends, fun x hx => ?_⟩
    rw [List.mem_singleton.mp hx]
    exact hchecks
  page := hpage
  store := hstore

/-- Writing an audit record. -/
lemma persistAuditEvidence_conduct (hidle : φ.store = .idle) (stage tenantId nameSpace : String)
    (writeId : Option String) (d : GovernanceDecision) :
    (conductProtocol ev).Follows
      (fun ψ _ => φ.Goes ψ ∧ Audited stage tenantId nameSpace writeId d ψ.recent) φ
      (lift (persistAuditEvidence stage tenantId nameSpace writeId d)) := by
  refine conduct_ask hidle ?_
  rintro ⟨eventNum, t⟩
  have hcount : φ.Goes (φ.next ⟨.server .countAudit, (eventNum, t)⟩) :=
    goes_next (o := .countAudit) (eventNum, t) rfl id rfl (by rw [hidle]; rfl)
  have hidle' := hcount.store.trans hidle
  have hmem : ⟨.server .countAudit, (eventNum, t)⟩ ∈
      (φ.next ⟨.server .countAudit, (eventNum, t)⟩).recent :=
    List.mem_append_right _ List.mem_cons_self
  dsimp only
  cases hvalid : (ServerState.auditMutation stage tenantId nameSpace writeId d eventNum
      t).validateMetadata with
  | error err =>
    refine ⟨hcount, eventNum, t, hmem, fun h => ?_⟩
    rw [hvalid] at h
    cases h
  | ok u =>
    refine conduct_ask ⟨hidle', eventNum, stage, tenantId, nameSpace, writeId, d, t, rfl, rfl⟩ ?_
    intro r
    have happend : (φ.next ⟨.server .countAudit, (eventNum, t)⟩).Goes
        ((φ.next ⟨.server .countAudit, (eventNum, t)⟩).next
          ⟨.server (.appendAudit (auditEntry stage tenantId nameSpace writeId d eventNum t)), r⟩) :=
      goes_next (o := .appendAudit _) r rfl id rfl (by rw [hidle']; rfl)
    have haudited : Audited stage tenantId nameSpace writeId d
        ((φ.next ⟨.server .countAudit, (eventNum, t)⟩).next ⟨.server
          (.appendAudit (auditEntry stage tenantId nameSpace writeId d eventNum t)), r⟩).recent :=
      ⟨eventNum, t, happend.subset hmem, fun _ =>
        ⟨r, List.mem_append_right _ List.mem_cons_self⟩⟩
    cases r with
    | error err => exact ⟨hcount.trans happend, haudited⟩
    | ok seq => exact ⟨hcount.trans happend, haudited⟩

/-- Recording a decision. -/
lemma settle_conduct (hidle : φ.store = .idle) (stage tenantId nameSpace : String)
    (writeId : Option String) (d : GovernanceDecision) :
    (conductProtocol ev).Follows
      (fun ψ _ => φ.Goes ψ ∧ Audited stage tenantId nameSpace writeId d ψ.recent) φ
      (lift (settle stage tenantId nameSpace writeId d)) := by
  refine conduct_bind (persistAuditEvidence_conduct hidle ..) ?_
  rintro ψ _ ⟨hgoes, haudited⟩
  have hidle' := hgoes.store.trans hidle
  refine ⟨hidle', ?_⟩
  rintro r χ ⟨-, rfl⟩
  have hregister := goes_next (o := .registerDecisionOutcome tenantId nameSpace d) r rfl id rfl
    (by rw [hidle']; rfl : ψ.store.next _ _ = ψ.store)
  exact ⟨hgoes.trans hregister, haudited.mono hregister.subset⟩

/-- What is left of the conduct when a request is done with a mutation. -/
def Rests (φ ψ : Conduct) : Prop := ψ.page = φ.page ∧ ψ.store = .idle

omit [Formatting] in
lemma goes_rests {φ ψ : Conduct} (h : φ.Goes ψ) (hidle : φ.store = .idle) : Rests φ ψ :=
  ⟨h.page, h.store.trans hidle⟩

/-- A permitted mutation is cleared once its decision is recorded. -/
lemma settled_cleared {ev : ServerEvent η} {m : Mutation} {stage tenantId nameSpace : String}
    {d : GovernanceDecision} {steps : List RequestStep} (hscope : scopeOf m = (tenantId, nameSpace))
    (hreject : ControlPlane.isReject d = false) (hpermitted : Permitted ev m steps)
    (haudited : Audited stage tenantId nameSpace (some m.writeId) d steps) :
    Cleared ev m steps := by
  obtain ⟨rfl, rfl⟩ := Prod.mk.inj hscope
  exact ⟨hpermitted, stage, d, hreject, haudited⟩

/-- Indexing a stored mutation, unless it is in the audit collection. -/
lemma indexMutation_conduct {m : Mutation} {seq : ℕ}
    (hstore : φ.store = if m.collection = auditCollection then .idle else .stored seq m) :
    (conductProtocol ev).Follows (fun ψ _ => Rests φ ψ) φ (lift (indexMutation seq m)) := by
  unfold indexMutation
  split_ifs with hcollection
  · rw [if_pos hcollection] at hstore
    exact ⟨rfl, hstore⟩
  · rw [if_neg hcollection] at hstore
    refine conduct_ask hstore fun r => ?_
    have hhalf : (φ.next ⟨.server (.indexLatest seq m), r⟩).store = .half seq m := by
      rw [Conduct.next, Conduct.nextStore, hstore]
      rfl
    refine ⟨hhalf, ?_⟩
    rintro r' ψ ⟨-, rfl⟩
    refine ⟨rfl, ?_⟩
    rw [Conduct.next, Conduct.nextStore, hhalf]
    rfl

/-- Looking a cleared mutation up, storing and indexing it. -/
lemma appendMutation_conduct {m : Mutation} {tenantId nameSpace : String} (hidle : φ.store = .idle)
    (hsubmits : ev.Submits tenantId m) (hcleared : Cleared ev m φ.recent) :
    (conductProtocol ev).Follows (fun ψ _ => Rests φ ψ) φ
      (lift (appendMutation m tenantId nameSpace)) := by
  unfold appendMutation
  cases hvalid : m.validateMetadata with
  | error err => exact ⟨rfl, hidle⟩
  | ok u =>
    dsimp only
    split_ifs with hscope
    · exact ⟨rfl, hidle⟩
    · rw [not_or, not_not, not_not] at hscope
      refine conduct_ask ⟨hidle, Prod.ext hscope.1 hscope.2⟩ ?_
      rintro (_ | existingSeq)
      · -- the key is missing, and the mutation still cleared
        have hmissed : (φ.next ⟨.server (.lookup tenantId nameSpace m), none⟩).store =
            .missed m := by
          rw [Conduct.next, Conduct.nextStore, hidle]
          rfl
        have hcleared' : Cleared ev m
            (φ.recent ++ [⟨.server (.lookup tenantId nameSpace m), none⟩]) :=
          hcleared.append (by simp [RequestOp.checked])
        refine conduct_ask ⟨hmissed, hvalid, hscope.1.symm ▸ hsubmits, hcleared'⟩ ?_
        rintro (err | seq)
        · refine ⟨rfl, ?_⟩
          rw [Conduct.next, Conduct.nextStore, hmissed]
          rfl
        · refine conduct_bind (indexMutation_conduct (by
            rw [Conduct.next, Conduct.nextStore, hmissed]
            rfl)) fun ψ _ hrests => ⟨hrests.1, hrests.2⟩
      · exact ⟨rfl, by rw [Conduct.next, Conduct.nextStore, hidle]; rfl⟩

/-! ## Pushes -/

variable {req : PushRequest} {principal : AuthPrincipal}

lemma pushRefused_conduct (hidle : φ.store = .idle) (m : Mutation) (crossTenant : Bool)
    (d : GovernanceDecision) :
    (conductProtocol ev).Follows (fun ψ _ => Rests φ ψ) φ
      (lift (pushRefused req m crossTenant d)) :=
  conduct_bind (settle_conduct hidle ..) fun _ _ hsettled => goes_rests hsettled.1 hidle

lemma pushDecided_conduct (hidle : φ.store = .idle) {m : Mutation} {d : GovernanceDecision}
    (hscope : scopeOf m = (req.tenantId, req.nameSpace)) (hsubmits : ev.Submits req.tenantId m)
    (hpermitted : ControlPlane.isReject d = false → Permitted ev m φ.recent) :
    (conductProtocol ev).Follows (fun ψ _ => Rests φ ψ) φ (lift (pushDecided req m d)) := by
  unfold pushDecided
  split_ifs with hreject
  · exact pushRefused_conduct hidle ..
  · refine conduct_bind (settle_conduct hidle ..) ?_
    rintro ψ _ ⟨hgoes, haudited⟩
    have hidle' := hgoes.store.trans hidle
    have hallow := Bool.eq_false_of_not_eq_true hreject
    have hcleared' := settled_cleared hscope hallow (hgoes.permitted (hpermitted hallow)) haudited
    refine conduct_bind (appendMutation_conduct hidle' hsubmits hcleared') fun χ answer hrests => ?_
    have hdone : Rests φ χ := ⟨hrests.1.trans hgoes.page, hrests.2⟩
    cases answer with
    | error err => exact hdone
    | ok seq => exact hdone

/-- Behind a gate that passed, the control plane decides. -/
lemma pushChecked_conduct (hev : ev = .push req principal) (hidle : φ.store = .idle) {m : Mutation}
    (hscope : scopeOf m = (req.tenantId, req.nameSpace)) (hsubmits : ev.Submits req.tenantId m)
    (hgate : ∃ before s, φ.recent = before ++ [s] ∧ RequestStep.Passes (scopeOf m) s) :
    (conductProtocol ev).Follows (fun ψ _ => Rests φ ψ) φ (lift (pushChecked req m)) := by
  refine conduct_ask hidle fun d => ?_
  let step : RequestStep := ⟨.server (.writePath
    { tenantId := req.tenantId, nameSpace := req.nameSpace, actor := m.metadata.actor
      source := m.metadata.source, tier := .state }
    (.stateWithTrust (m.patch.getD Document.empty) m.metadata.trustScore)), d⟩
  show (conductProtocol ev).Follows _ (φ.next step) _
  have hidle' : (φ.next step).store = .idle := by
    rw [Conduct.next, Conduct.nextStore, hidle]
    rfl
  refine (pushDecided_conduct hidle' hscope hsubmits fun hreject => ?_).imp fun _ _ hrests => hrests
  rw [isReject_normalizeWriteDecision] at hreject
  obtain ⟨before, s, hrecent, hpasses⟩ := hgate
  have hsteps : (φ.next step).recent = before ++ [s, step] := by
    show φ.recent ++ [step] = before ++ [s, step]
    rw [hrecent, List.append_assoc, List.singleton_append]
  rw [hsteps]
  refine ⟨⟨before, s, [step], rfl, hpasses, ?_⟩, step, by simp, req, principal, hev, rfl, rfl, rfl,
    hreject⟩
  intro x hx
  rw [List.mem_singleton.mp hx]
  rfl

lemma pushMutation_conduct (hev : ev = .push req principal)
    (htenant : principal.tenantId = req.tenantId) (hidle : φ.store = .idle) {m : Mutation}
    (hm : m ∈ req.mutations) :
    (conductProtocol ev).Follows (fun ψ _ => Rests φ ψ) φ (lift (pushMutation req m)) := by
  refine conduct_ask hidle fun r => ?_
  have hidle' : (φ.next ⟨.server (.containmentGate req.tenantId req.nameSpace), r⟩).store =
      .idle := by
    rw [Conduct.next, Conduct.nextStore, hidle]
    rfl
  have hsubmits : ev.Submits req.tenantId m := by
    rw [hev]
    exact ⟨htenant, hm⟩
  cases r with
  | some d => exact pushRefused_conduct hidle' ..
  | none =>
    dsimp only
    cases m.validateMetadata with
    | error err => exact pushRefused_conduct hidle' ..
    | ok u =>
      dsimp only
      split_ifs with hscope
      · refine conduct_ask hidle' fun r' => pushRefused_conduct ?_ ..
        rw [Conduct.next, Conduct.nextStore, hidle']
        rfl
      · rw [not_or, not_not, not_not] at hscope
        have hscope' : scopeOf m = (req.tenantId, req.nameSpace) := Prod.ext hscope.1 hscope.2
        exact pushChecked_conduct hev hidle' hscope' hsubmits ⟨φ.recent, _, rfl, hscope'.symm⟩

lemma pushLoop_conduct (hev : ev = .push req principal)
    (htenant : principal.tenantId = req.tenantId) (hidle : φ.store = .idle) {ms : List Mutation}
    (hms : ∀ m ∈ ms, m ∈ req.mutations) :
    (conductProtocol ev).Follows (fun ψ _ => Rests φ ψ) φ (lift (pushLoop req ms)) := by
  induction ms generalizing φ with
  | nil => exact ⟨rfl, hidle⟩
  | cons m rest ih =>
    obtain ⟨hm, hrest⟩ := List.forall_mem_cons.mp hms
    refine conduct_bind (pushMutation_conduct hev htenant hidle hm) fun ψ pushed hrests => ?_
    cases pushed with
    | error fault => exact hrests
    | ok pushed =>
      refine conduct_bind (ih hrests.2 hrest) fun χ outcomes hrests' => ?_
      have hdone : Rests φ χ := ⟨hrests'.1.trans hrests.1, hrests'.2⟩
      cases outcomes with
      | error fault => exact hdone
      | ok outcomes => exact hdone

/-- The last step of a request, which reads the checkpoint. -/
lemma checkpoint_conduct {α : Type} (hidle : φ.store = .idle) (tenantId nameSpace : String)
    (f : ℕ → α) :
    (conductProtocol ev).Follows (fun ψ a => Rests φ ψ ∧ ∃ n, a = f n) φ
      (lift (ask (.checkpoint tenantId nameSpace) >>= fun n => pure (f n))) := by
  refine conduct_ask hidle fun r => ⟨⟨rfl, ?_⟩, r, rfl⟩
  rw [Conduct.next, Conduct.nextStore, hidle]
  rfl

lemma pushMismatch_conduct (hidle : φ.store = .idle) (nonOwner crossTenant : ℕ) (reason : String) :
    (conductProtocol ev).Follows (fun ψ _ => ψ.store = .idle) φ
      (lift (pushMismatch req nonOwner crossTenant reason)) :=
  conduct_bind (settle_conduct hidle ..) fun _ _ hsettled =>
    (checkpoint_conduct (hsettled.1.store.trans hidle) ..).imp fun _ _ h => h.1.2

/-- **Pushes.** -/
theorem processPush_conduct (hev : ev = .push req principal) :
    (conductProtocol ev).Follows (fun ψ _ => ψ.store = .idle) .fresh
      (lift (processPush req principal)) := by
  unfold processPush
  split_ifs with hnode htenant
  · exact conduct_ask rfl fun _ => pushMismatch_conduct rfl ..
  · exact conduct_ask rfl fun _ => pushMismatch_conduct rfl ..
  · refine conduct_bind (pushLoop_conduct hev (not_not.mp htenant).symm rfl fun m hm => hm) ?_
    intro ψ outcomes hrests
    cases outcomes with
    | error fault => exact hrests.2
    | ok outcomes => exact (checkpoint_conduct hrests.2 ..).imp fun _ _ h => h.1.2

/-! ## Pulls -/

section
variable {req : PullRequest} {principal : AuthPrincipal} {readTier : MemoryTier}

/-- The mutations of a response come from a page. -/
def FromPage (req : PullRequest) (readTier : MemoryTier) (page : List OplogEntry)
    (mutations : List Mutation) : Prop :=
  ∀ m ∈ mutations, ∃ e ∈ page, inPullScope req readTier e = true ∧
    m = annotateMutationForReadTier e.mutation readTier

/-- How a pull ends: idle, with mutations from its page for a principal of its tenant. -/
def PullRests (req : PullRequest) (principal : AuthPrincipal) (readTier : MemoryTier)
    (ψ : Conduct) (answer : Except RequestFault PullResponse) : Prop :=
  ψ.store = .idle ∧ ∀ resp, answer = .ok resp → resp.mutations ≠ [] →
    principal.tenantId = req.tenantId ∧ FromPage req readTier ψ.page resp.mutations

lemma pullAnswered_conduct (hidle : φ.store = .idle) (d : GovernanceDecision)
    {mutations : List Mutation} (hmutations : mutations ≠ [] →
      principal.tenantId = req.tenantId ∧ FromPage req readTier φ.page mutations) :
    (conductProtocol ev).Follows (PullRests req principal readTier) φ
      (lift (pullAnswered req d mutations)) := by
  refine conduct_bind (settle_conduct hidle ..) fun ψ _ hsettled => ?_
  have hgoes := hsettled.1
  refine (checkpoint_conduct (hgoes.store.trans hidle) ..).imp ?_
  rintro χ answer ⟨hrests, n, rfl⟩
  refine ⟨hrests.2, ?_⟩
  rintro resp hresp hne
  obtain rfl := Except.ok.inj hresp
  rw [hrests.1, hgoes.page]
  exact hmutations hne

lemma pullDecided_conduct (hidle : φ.store = .idle) (htenant : principal.tenantId = req.tenantId)
    {scopedEntries : List OplogEntry} (d : GovernanceDecision) (filtered : List Document)
    (hscoped : scopedEntries = φ.page.filter (inPullScope req readTier)) :
    (conductProtocol ev).Follows (PullRests req principal readTier) φ
      (lift (pullDecided req readTier scopedEntries d filtered)) := by
  unfold pullDecided
  split_ifs
  · exact pullAnswered_conduct hidle d fun hne => absurd rfl hne
  · refine pullAnswered_conduct hidle d fun _ => ⟨htenant, fun m hm => ?_⟩
    obtain ⟨e, he, -, rfl⟩ := mem_selectMutations hm
    rw [hscoped, List.mem_filter] at he
    exact ⟨e, he.1, he.2, rfl⟩

/-- A pull behind its read. -/
lemma pullRead_conduct (hidle : φ.store = .idle) (htenant : principal.tenantId = req.tenantId) :
    (conductProtocol ev).Follows (PullRests req principal readTier) φ
      (lift (pullRead req readTier (φ.page.filter (inPullScope req readTier)))) := by
  refine conduct_ask hidle fun answer => ?_
  obtain ⟨d, filtered⟩ := answer
  refine conduct_ask ?_ fun containment => ?_
  · show PushPhase.next φ.store _ _ = .idle
    rw [hidle]
    rfl
  · refine pullDecided_conduct ?_ htenant _ filtered rfl
    show PushPhase.next (PushPhase.next φ.store _ _) _ _ = .idle
    rw [hidle]
    rfl

/-- **Pulls.** -/
theorem processPull_conduct [Arithmetic] :
    (conductProtocol ev).Follows (PullRests req principal readTier) .fresh
      (lift (processPull req principal readTier)) := by
  unfold processPull
  split_ifs with hprincipal htenant
  · exact conduct_ask rfl fun _ => pullAnswered_conduct rfl _ fun hne => absurd rfl hne
  · exact pullAnswered_conduct rfl _ fun hne => absurd rfl hne
  · rw [not_or, not_not, not_not] at hprincipal
    cases afterCheckpoint req.sinceCheckpoint with
    | error fault => exact ⟨rfl, fun resp hresp => by cases hresp⟩
    | ok first =>
      refine conduct_ask ⟨rfl, rfl⟩ fun r => ?_
      cases r with
      | error err => exact ⟨rfl, fun resp hresp => by cases hresp⟩
      | ok entries => exact pullRead_conduct rfl hprincipal.2

end

/-! ## Promotions and retrievals -/

section
variable {req : PromoteRequest} {principal : AuthPrincipal}

lemma promoteRefused_conduct (hidle : φ.store = .idle) (d : GovernanceDecision) :
    (conductProtocol ev).Follows (fun ψ _ => ψ.store = .idle) φ (lift (promoteRefused req d)) :=
  conduct_bind (settle_conduct hidle ..) fun _ _ hsettled =>
    (checkpoint_conduct (hsettled.1.store.trans hidle) ..).imp fun _ _ h => h.1.2

lemma promoteDecided_conduct (hidle : φ.store = .idle) {d : GovernanceDecision}
    (hscope : scopeOf req.mutation = (req.tenantId, req.nameSpace))
    (hsubmits : ev.Submits req.tenantId req.mutation)
    (hpermitted : d.decision = .allow → Permitted ev req.mutation φ.recent) :
    (conductProtocol ev).Follows (fun ψ _ => ψ.store = .idle) φ (lift (promoteDecided req d)) := by
  unfold promoteDecided
  split_ifs with hallow
  · exact promoteRefused_conduct hidle d
  · refine conduct_bind (settle_conduct hidle ..) ?_
    rintro ψ _ ⟨hgoes, haudited⟩
    have hidle' := hgoes.store.trans hidle
    have hreject : ControlPlane.isReject d = false := by
      rw [ControlPlane.isReject, not_not.mp hallow]
      rfl
    have hcleared' := settled_cleared hscope hreject
      (hgoes.permitted (hpermitted (not_not.mp hallow))) haudited
    refine conduct_bind (appendMutation_conduct hidle' hsubmits hcleared') fun χ answer hrests => ?_
    cases answer with
    | error err => exact hrests.2
    | ok seq => exact (checkpoint_conduct hrests.2 ..).imp fun _ _ h => h.1.2

/-- Behind the control plane's decision comes the gate. -/
lemma promoteGated_conduct (hidle : φ.store = .idle) {d : GovernanceDecision}
    (hscope : scopeOf req.mutation = (req.tenantId, req.nameSpace))
    (hsubmits : ev.Submits req.tenantId req.mutation)
    (hdecision : d.decision = .allow → ∃ s ∈ φ.recent, RequestStep.Lets ev req.mutation s) :
    (conductProtocol ev).Follows (fun ψ _ => ψ.store = .idle) φ (lift (promoteGated req d)) := by
  refine ⟨hidle, ?_⟩
  rintro containment ψ ⟨hanswer, rfl⟩
  have hidle' : (φ.next ⟨.server (.containmentGate req.tenantId req.nameSpace),
      containment⟩).store = .idle := by
    rw [Conduct.next, Conduct.nextStore, hidle]
    rfl
  cases containment with
  | some d' =>
    -- the gate answers nothing but rejections
    refine promoteDecided_conduct hidle' hscope hsubmits fun hallow => ?_
    have hreject : ControlPlane.isReject d' = true := hanswer
    rw [Option.getD_some] at hallow
    rw [ControlPlane.isReject, hallow] at hreject
    cases hreject
  | none =>
    refine promoteDecided_conduct hidle' hscope hsubmits fun hallow => ?_
    obtain ⟨s, hs, hlets⟩ := hdecision hallow
    exact ⟨⟨φ.recent, _, [], rfl, hscope.symm, by simp⟩, s, List.mem_append_left _ hs, hlets⟩

lemma promoteCrossTenant_conduct (hidle : φ.store = .idle) (reason : String) :
    (conductProtocol ev).Follows (fun ψ _ => ψ.store = .idle) φ
      (lift (promoteCrossTenant req reason)) := by
  refine conduct_ask hidle fun _ => promoteRefused_conduct ?_ _
  rw [Conduct.next, Conduct.nextStore, hidle]
  rfl

lemma promoteChecked_conduct (hev : ev = .promote req principal) (hidle : φ.store = .idle)
    (hscope : scopeOf req.mutation = (req.tenantId, req.nameSpace))
    (hsubmits : ev.Submits req.tenantId req.mutation) :
    (conductProtocol ev).Follows (fun ψ _ => ψ.store = .idle) φ (promoteChecked req) := by
  unfold promoteChecked
  dsimp only
  split_ifs with hpath
  · exact promoteRefused_conduct hidle _
  · refine ⟨hidle, ?_⟩
    rintro ⟨d, payload⟩ ψ ⟨-, rfl⟩
    let step : RequestStep :=
      ⟨.promotionPath (ServerState.promotionRequest req) (promotionPayload req), (d, payload)⟩
    show (conductProtocol ev).Follows _ (φ.next step) (lift (promoteGated req d))
    have hidle' : (φ.next step).store = .idle := hidle
    refine promoteGated_conduct hidle' hscope hsubmits fun hallow => ?_
    show ∃ s ∈ φ.recent ++ [step], RequestStep.Lets ev req.mutation s
    exact ⟨step, by simp, req, principal, hev, rfl, rfl, hallow⟩

/-- **Promotions.** -/
theorem processPromote_conduct (hev : ev = .promote req principal) :
    (conductProtocol ev).Follows (fun ψ _ => ψ.store = .idle) .fresh
      (processPromote req principal) := by
  unfold processPromote
  cases req.mutation.validateMetadata with
  | error err =>
    dsimp only
    split_ifs with hnode htenant
    · exact conduct_ask rfl fun _ => promoteRefused_conduct rfl _
    · exact promoteCrossTenant_conduct rfl _
    · exact promoteRefused_conduct rfl _
  | ok u =>
    dsimp only
    split_ifs with hnode htenant hscope
    · exact conduct_ask rfl fun _ => promoteRefused_conduct rfl _
    · exact promoteCrossTenant_conduct rfl _
    · exact promoteCrossTenant_conduct rfl _
    · rw [not_or, not_not, not_not] at hscope
      refine promoteChecked_conduct hev rfl (Prod.ext hscope.1 hscope.2) ?_
      rw [hev]
      exact ⟨(not_not.mp htenant).symm, rfl⟩

/-- **Retrievals.** -/
theorem handleRetrievalRead_conduct (req : RetrievalRequest) (principal : AuthPrincipal) :
    (conductProtocol ev).Follows (fun ψ _ => ψ.store = .idle) .fresh
      (lift (handleRetrievalRead req principal)) := by
  unfold handleRetrievalRead
  split_ifs with htenant
  · rfl
  · refine conduct_ask rfl fun r => ?_
    exact conduct_bind (persistAuditEvidence_conduct rfl ..) fun ψ _ hrecorded => hrecorded.1.store

end

end
end Atomic

/-! ## Every request -/

section
variable {η : Type} [Formatting] [Arithmetic]

/-- **Requests keep to their protocol.** When a request ends, nothing that it has begun to store
is left, and its reply hands out mutations of its own page alone. -/
theorem ServerEvent.program_conduct (ev : ServerEvent η) :
    (conductProtocol ev).Follows
      (fun φ reply => φ.store = .idle ∧ ev.HandsOut φ.page reply) .fresh ev.program := by
  have hnone : ∀ page reply, reply.mutations = [] → ev.HandsOut page reply := by
    intro page reply hempty m hm
    rw [hempty] at hm
    exact absurd hm List.not_mem_nil
  cases ev with
  | push req principal =>
    exact (Atomic.processPush_conduct rfl).bind fun φ _ hidle => ⟨hidle, hnone _ _ rfl⟩
  | pull req principal readTier =>
    refine Atomic.processPull_conduct.bind fun φ answer hrests => ⟨hrests.1, fun m hm => ?_⟩
    cases answer with
    | error fault => exact absurd hm List.not_mem_nil
    | ok resp =>
      obtain ⟨htenant, hpage⟩ := hrests.2 resp rfl (List.ne_nil_of_mem hm)
      exact ⟨req, principal, readTier, rfl, htenant, hpage m hm⟩
  | promote req principal =>
    exact (Atomic.processPromote_conduct rfl).bind fun φ _ hidle => ⟨hidle, hnone _ _ rfl⟩
  | retrieve req principal =>
    exact (Atomic.handleRetrievalRead_conduct req principal).bind fun φ _ hidle =>
      ⟨hidle, hnone _ _ rfl⟩
  | restart hooks => exact ⟨rfl, hnone _ _ rfl⟩

/-- Requests of every kind that run concurrently on a server. -/
def requestPool {ω ι : Type} (st : ServerState ω η) (requests : ι → ServerEvent η) :
    Pool (ServerState ω η) RequestOp.Res fun _ : ι => ServerReply where
  shared := st
  threads i := (requests i).program

lemma requestPool_tracked {ω ι : Type} (st : ServerState ω η) (requests : ι → ServerEvent η) :
    (requestPool st requests).Tracked (fun i => conductProtocol (requests i))
      (fun i φ reply => φ.store = .idle ∧ (requests i).HandsOut φ.page reply) fun _ => .fresh :=
  fun i => (requests i).program_conduct

end
end Rango
