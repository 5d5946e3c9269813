import Mathlib.Data.List.Induction
import Rango.Server.IsolationTheorems

/-!
# The write ids of audit records

The write id of an audit record is a label, made of the tenant, the namespace, the stage and the
write id of what it records, followed by the number of the record. The number comes from a counter
in memory, which starts over with the server while the log keeps the records. `Audits` says what
requests do to counter and records, and `audit_ids_distinct` that the write ids differ as long as
no request is served whose label the log has with a number that the counter has still to reach.
-/

namespace Rango

/-- The write id of an audit record up to its number. -/
def auditLabel (stage tenantId nameSpace : String) (writeId : Option String) : String :=
  "governance-audit:" ++ tenantId ++ ":" ++ nameSpace ++ ":" ++ stage ++ ":" ++
    writeId.getD "none"

/-- The write id of the record with this label and number. -/
def auditId (label : String) (eventNum : ℕ) : String := label ++ ":" ++ Nat.repr eventNum

/-! ## Labels and numbers -/

/-- A list is split in one way at the last occurrence of an element. -/
lemma append_cons_inj_of_last {α : Type} {c : α} {xs xs' ys ys' : List α} (hys : c ∉ ys)
    (hys' : c ∉ ys') (h : xs ++ c :: ys = xs' ++ c :: ys') : xs = xs' ∧ ys = ys' := by
  have key : ∀ {xs xs' ys ys' : List α}, c ∉ ys → xs ++ c :: ys = xs' ++ c :: ys' →
      ∀ as, xs' = xs ++ as → as = [] := by
    intro xs xs' ys ys' hys h as has
    rw [has, List.append_assoc] at h
    cases as with
    | nil => rfl
    | cons a as =>
      obtain ⟨-, htail⟩ := List.cons.inj (List.append_cancel_left h)
      rw [htail] at hys
      exact absurd (List.mem_append_right _ List.mem_cons_self) hys
  rcases List.append_eq_append_iff.mp h with ⟨as, hxs, -⟩ | ⟨as, hxs, -⟩
  · have hnil := key hys h as hxs
    rw [hnil, List.append_nil] at hxs
    rw [hxs] at h ⊢
    exact ⟨rfl, (List.cons.inj (List.append_cancel_left h)).2⟩
  · have hnil := key hys' h.symm as hxs
    rw [hnil, List.append_nil] at hxs
    rw [hxs] at h ⊢
    exact ⟨rfl, (List.cons.inj (List.append_cancel_left h)).2⟩

/-- Label and number can be told from the write id. -/
theorem auditId_inj {label label' : String} {n n' : ℕ} :
    auditId label n = auditId label' n' ↔ label = label' ∧ n = n' := by
  constructor
  · intro h
    have hcolon : ∀ n : ℕ, ':' ∉ (Nat.repr n).toList := fun n hmem =>
      absurd (Revision.isDigit_of_mem_repr hmem) (by decide)
    have hlists : label.toList ++ ':' :: (Nat.repr n).toList =
        label'.toList ++ ':' :: (Nat.repr n').toList := by
      have hlist := congrArg String.toList h
      simpa [auditId] using hlist
    obtain ⟨hlabel, hdigits⟩ := append_cons_inj_of_last (hcolon n) (hcolon n') hlists
    have hnumber := congrArg (fun digits => Nat.ofDigitChars 10 digits 0) hdigits
    simp only [Nat.toList_repr, Nat.ofDigitChars_ten_toDigits] at hnumber
    exact ⟨String.toList_inj.mp hlabel, hnumber⟩
  · rintro ⟨rfl, rfl⟩
    rfl

/-! ## Records -/

namespace ServerState

section
variable {ω η : Type} [LogOplog ω]

/-- The server's own entries, which are those that `persist_audit_evidence` writes. -/
def ownRecords (w : ω) : List OplogEntry := (toEntries w).filter fun e => e.origin = .localWrite

/-- What the pieces of a request do to the counter and the records: nothing, or they count on and
write a record with the new number and one of the labels, or fail to. -/
inductive Audits (labels : List String) : ServerState ω η → ServerState ω η → Prop where
  | quiet {st st'} (records : ownRecords st'.oplog = ownRecords st.oplog)
      (counter : st'.auditCounter = st.auditCounter) : Audits labels st st'
  | lost {st st'} (records : ownRecords st'.oplog = ownRecords st.oplog)
      (counter : st'.auditCounter = st.auditCounter + 1) : Audits labels st st'
  | record {st st' e label} (mem : label ∈ labels)
      (id : e.mutation.writeId = auditId label (st.auditCounter + 1))
      (records : ownRecords st'.oplog = ownRecords st.oplog ++ [e])
      (counter : st'.auditCounter = st.auditCounter + 1) : Audits labels st st'
  | trans {st st' st''} (h : Audits labels st st') (h' : Audits labels st' st'') :
      Audits labels st st''

variable {labels labels' : List String} {st st' st'' : ServerState ω η}

lemma Audits.mono (h : Audits labels st st') (hsub : labels ⊆ labels') : Audits labels' st st' := by
  induction h with
  | quiet records counter => exact .quiet records counter
  | lost records counter => exact .lost records counter
  | record mem id records counter => exact .record (hsub mem) id records counter
  | trans _ _ ih ih' => exact ih.trans ih'

/-- The new records carry labels of the list and numbers that the counter passed, in order. -/
structure NewRecords (labels : List String) (first last : ℕ) (added : List OplogEntry) : Prop where
  numbered : ∀ e ∈ added, ∃ label ∈ labels, ∃ n, e.mutation.writeId = auditId label n ∧
    first < n ∧ n ≤ last
  distinct : added.Pairwise fun a b => a.mutation.writeId ≠ b.mutation.writeId
  le : first ≤ last

lemma NewRecords.append {n₁ n₂ n₃ : ℕ} {added added' : List OplogEntry}
    (h : NewRecords labels n₁ n₂ added) (h' : NewRecords labels n₂ n₃ added') :
    NewRecords labels n₁ n₃ (added ++ added') where
  numbered e he := by
    have hle := h.le
    have hle' := h'.le
    rcases List.mem_append.mp he with he | he
    · obtain ⟨label, hlabel, n, hid, hlt, hn⟩ := h.numbered e he
      exact ⟨label, hlabel, n, hid, hlt, by omega⟩
    · obtain ⟨label, hlabel, n, hid, hlt, hn⟩ := h'.numbered e he
      exact ⟨label, hlabel, n, hid, by omega, hn⟩
  distinct := by
    refine List.pairwise_append.mpr ⟨h.distinct, h'.distinct, fun a ha b hb heq => ?_⟩
    obtain ⟨label, -, n, hid, -, hn⟩ := h.numbered a ha
    obtain ⟨label', -, n', hid', hlt', -⟩ := h'.numbered b hb
    rw [hid, hid'] at heq
    have hsame := (auditId_inj.mp heq).2
    omega
  le := h.le.trans h'.le

/-- **What a request records.** -/
theorem Audits.newRecords (h : Audits labels st st') :
    ∃ added, ownRecords st'.oplog = ownRecords st.oplog ++ added ∧
      NewRecords labels st.auditCounter st'.auditCounter added := by
  induction h with
  | quiet records counter =>
    exact ⟨[], by rw [records, List.append_nil], by simp, .nil, counter.ge⟩
  | lost records counter =>
    exact ⟨[], by rw [records, List.append_nil], by simp, .nil, by omega⟩
  | @record st st' e label mem id records counter =>
    refine ⟨[e], records, fun x hx => ?_, List.pairwise_singleton _ _, by omega⟩
    rw [List.mem_singleton.mp hx]
    exact ⟨label, mem, _, id, by omega, by omega⟩
  | trans _ _ ih ih' =>
    obtain ⟨added, hadded, hnew⟩ := ih
    obtain ⟨added', hadded', hnew'⟩ := ih'
    exact ⟨added ++ added', by rw [hadded', hadded, List.append_assoc], hnew.append hnew'⟩

/-! ## Requests -/

variable [Formatting] [Surroundings] (cp : ControlPlane η)

omit [Formatting] [Surroundings] in
lemma Audits.refl (st : ServerState ω η) : Audits labels st st := .quiet rfl rfl

omit [LogOplog ω] [Formatting] [Surroundings] in
/-- Log and counter are the same. -/
structure SameCount (st st' : ServerState ω η) : Prop where
  oplog : st'.oplog = st.oplog
  counter : st'.auditCounter = st.auditCounter

omit [Formatting] [Surroundings] in
/-- A piece that starts where log and counter are those of `st`. -/
lemma Audits.of_sameCount (h : SameCount st st') (h' : Audits labels st' st'') :
    Audits labels st st'' :=
  .trans (.quiet (by rw [h.oplog]) h.counter) h'

omit [Formatting] [Surroundings] in
lemma ownRecords_append {w w' : ω} {e : OplogEntry} {seq : ℕ}
    (h : Oplog.append e w = (.ok seq, w')) : ownRecords w' =
      ownRecords w ++ [e.withSeq seq].filter fun e => e.origin = .localWrite := by
  rw [ownRecords, LogOplog.append_ok _ _ _ _ h, List.filter_append]
  rfl

omit [LogOplog ω] [Formatting] [Surroundings] in
lemma indexMutation_counter (st : ServerState ω η) (seq : ℕ) (m : Mutation) :
    (st.indexMutation seq m).auditCounter = st.auditCounter := by
  unfold indexMutation
  split_ifs <;> rfl

lemma persistAuditEvidence_audits (st : ServerState ω η) (stage tenantId nameSpace : String)
    (writeId : Option String) (d : GovernanceDecision) :
    Audits [auditLabel stage tenantId nameSpace writeId] st
      (st.persistAuditEvidence stage tenantId nameSpace writeId d).2 := by
  simp only [persistAuditEvidence]
  split
  · exact .lost rfl rfl
  · split
    · next hout =>
      refine .lost ?_ rfl
      exact congrArg (List.filter _) (LogOplog.append_error _ _ _ _ hout)
    · next seq w hout =>
      obtain ⟨e, hrecords, hid⟩ : ∃ e, ownRecords w = ownRecords st.oplog ++ [e] ∧
          e.mutation.writeId = auditId (auditLabel stage tenantId nameSpace writeId)
            (st.auditCounter + 1) := ⟨_, ownRecords_append hout, rfl⟩
      refine .record (List.mem_singleton_self _) hid ?_ (indexMutation_counter _ _ _)
      rw [indexMutation_oplog]
      exact hrecords

lemma settle_audits (st : ServerState ω η) (stage tenantId nameSpace : String)
    (writeId : Option String) (d : GovernanceDecision) :
    Audits [auditLabel stage tenantId nameSpace writeId] st
      (st.settle stage tenantId nameSpace writeId d) :=
  (persistAuditEvidence_audits st stage tenantId nameSpace writeId d).trans (.quiet rfl rfl)

omit [Formatting] in
/-- A client's mutation is no record of the server. -/
lemma appendMutation_audits (st : ServerState ω η) (m : Mutation) (tenantId nameSpace : String) :
    Audits labels st (st.appendMutation m tenantId nameSpace).2 := by
  simp only [appendMutation]
  split
  · exact .refl st
  · split_ifs
    · exact .refl st
    · split
      · exact .refl st
      · split
        · next hout =>
          refine .quiet ?_ rfl
          exact congrArg (List.filter _) (LogOplog.append_error _ _ _ _ hout)
        · next hout =>
          refine .quiet ?_ (indexMutation_counter _ _ _)
          rw [indexMutation_oplog, ownRecords_append hout]
          exact List.append_nil _

/-- The label of a record of a push. -/
def pushLabel (req : PushRequest) (m : Mutation) : String :=
  auditLabel "write" req.tenantId req.nameSpace (some m.writeId)

lemma pushMutation_audits (st : ServerState ω η) (req : PushRequest) (m : Mutation) :
    Audits [pushLabel req m] st (st.pushMutation cp req m).2 := by
  have hrefused : ∀ {st₁ : ServerState ω η} {crossTenant d}, SameCount st st₁ →
      Audits [pushLabel req m] st (st₁.pushRefused req m crossTenant d).2 := fun hsame =>
    .of_sameCount hsame (settle_audits _ _ _ _ _ _)
  have hgated : SameCount st (st.containmentGate req.tenantId req.nameSpace).2 := ⟨rfl, rfl⟩
  unfold pushMutation
  rcases hgate : st.containmentGate req.tenantId req.nameSpace with ⟨_ | d, st₁⟩
  · rw [hgate] at hgated
    dsimp only
    split
    · exact hrefused hgated
    · split_ifs
      · exact hrefused ⟨hgated.oplog, hgated.counter⟩
      · have hdecided : SameCount st (st₁.writeDecision cp req m).2 :=
          ⟨hgated.oplog, hgated.counter⟩
        unfold pushChecked
        rcases hdec : st₁.writeDecision cp req m with ⟨d, st₂⟩
        rw [hdec] at hdecided
        dsimp only
        split_ifs
        · exact hrefused hdecided
        · have hsettled : Audits [pushLabel req m] st₂ _ :=
            settle_audits st₂ "write" req.tenantId req.nameSpace (some m.writeId) d
          have happend := Audits.of_sameCount hdecided
            (hsettled.trans (appendMutation_audits _ m req.tenantId req.nameSpace))
          split
          · next hout => exact congrArg Prod.snd hout ▸ happend
          · next hout => exact congrArg Prod.snd hout ▸ happend
  · rw [hgate] at hgated
    exact hrefused hgated

lemma pushLoop_audits (st : ServerState ω η) (req : PushRequest) (ms : List Mutation) :
    Audits (ms.map (pushLabel req)) st (pushLoop cp st req ms).2 := by
  induction ms generalizing st with
  | nil => exact .refl st
  | cons m rest ih =>
    have hfirst : Audits (pushLabel req m :: rest.map (pushLabel req)) st
        (st.pushMutation cp req m).2 := (pushMutation_audits cp st req m).mono (by simp)
    have hrest := fun st => (ih st).mono (List.subset_cons_self (pushLabel req m) _)
    simp only [pushLoop, List.map_cons]
    split
    · next hout =>
      rw [hout] at hfirst
      exact hfirst
    · next pushed st₁ hout =>
      rw [hout] at hfirst
      refine hfirst.trans ?_
      split
      · next hout => exact congrArg Prod.snd hout ▸ hrest st₁
      · next hout => exact congrArg Prod.snd hout ▸ hrest st₁

end

end ServerState

/-- The labels of the records that the event makes. -/
def ServerEvent.auditLabels {η : Type} : ServerEvent η → List String
  | .push req principal =>
    if req.nodeId ≠ principal.nodeId ∨ req.tenantId ≠ principal.tenantId then
      [auditLabel "write" req.tenantId req.nameSpace none]
    else req.mutations.map (ServerState.pushLabel req)
  | .pull req _ _ => [auditLabel "read" req.tenantId req.nameSpace none]
  | .promote req _ =>
    [auditLabel "promotion" req.tenantId req.nameSpace (some req.mutation.writeId)]
  | .retrieve req principal =>
    if principal.tenantId ≠ req.tenantId then []
    else [auditLabel "retrieval" req.tenantId req.nameSpace none]
  | .restart _ => []

namespace ServerState

section
variable {ω η : Type} [LogOplog ω] [Formatting] [Surroundings] (cp : ControlPlane η)
  {st st' : ServerState ω η}

lemma processPush_audits (st : ServerState ω η) (req : PushRequest) (principal : AuthPrincipal) :
    Audits (ServerEvent.auditLabels (.push req principal : ServerEvent η)) st
      (st.processPush cp req principal).2 := by
  simp only [processPush, ServerEvent.auditLabels]
  by_cases hnode : req.nodeId = principal.nodeId
  · by_cases htenant : req.tenantId = principal.tenantId
    · have hloop := pushLoop_audits cp st req req.mutations
      rw [if_neg (not_not.mpr hnode), if_neg (not_not.mpr htenant),
        if_neg (by simp [hnode, htenant])]
      split
      · next hout => exact congrArg Prod.snd hout ▸ hloop
      · next hout => exact congrArg Prod.snd hout ▸ hloop
    · have hcount : SameCount st st.countCrossTenantRejection := ⟨rfl, rfl⟩
      rw [if_neg (not_not.mpr hnode), if_pos htenant, if_pos (.inr htenant)]
      exact .of_sameCount hcount (settle_audits _ _ _ _ _ _)
  · have hcount : SameCount st st.countNonOwnerRejection := ⟨rfl, rfl⟩
    rw [if_pos hnode, if_pos (.inl hnode)]
    exact .of_sameCount hcount (settle_audits _ _ _ _ _ _)

lemma processPull_audits [Arithmetic] (st : ServerState ω η) (req : PullRequest)
    (principal : AuthPrincipal) (readTier : MemoryTier) :
    Audits (ServerEvent.auditLabels (.pull req principal readTier : ServerEvent η)) st
      (st.processPull cp req principal readTier).2 := by
  have hanswered : ∀ {st₁ : ServerState ω η} {d mutations}, SameCount st st₁ →
      Audits [auditLabel "read" req.tenantId req.nameSpace none] st
        (st₁.pullAnswered req d mutations).2 := fun hsame =>
    .of_sameCount hsame (settle_audits _ _ _ _ _ _)
  rw [ServerEvent.auditLabels]
  unfold processPull
  split_ifs
  · exact hanswered ⟨rfl, rfl⟩
  · exact hanswered ⟨rfl, rfl⟩
  · split
    · exact .refl st
    · next scopedEntries _ =>
      have hdecided : SameCount st (st.readDecision cp req readTier scopedEntries).2 := ⟨rfl, rfl⟩
      rcases hdec : st.readDecision cp req readTier scopedEntries with ⟨⟨d, filtered⟩, st₁⟩
      rw [hdec] at hdecided
      dsimp only
      split_ifs
      · exact hanswered hdecided
      · exact hanswered hdecided

lemma processPromote_audits (st : ServerState ω η) (req : PromoteRequest)
    (principal : AuthPrincipal) :
    Audits (ServerEvent.auditLabels (.promote req principal : ServerEvent η)) st
      (st.processPromote cp req principal).2 := by
  have hrefused : ∀ {st₁ : ServerState ω η} {d}, SameCount st st₁ →
      Audits [auditLabel "promotion" req.tenantId req.nameSpace (some req.mutation.writeId)] st
        (st₁.promoteRefused req d).2 := fun hsame =>
    .of_sameCount hsame (settle_audits _ _ _ _ _ _)
  rw [ServerEvent.auditLabels]
  unfold processPromote
  split
  · exact hrefused ⟨rfl, rfl⟩
  · split
    · exact hrefused ⟨rfl, rfl⟩
    · split
      · exact hrefused ⟨rfl, rfl⟩
      · split_ifs
        · exact hrefused ⟨rfl, rfl⟩
        · have hdecided : SameCount st
              (st.promotionDecision cp req (promotionRequest req)).2 := ⟨rfl, rfl⟩
          unfold promoteChecked
          dsimp only
          split
          · exact hrefused ⟨rfl, rfl⟩
          · rcases hdec : st.promotionDecision cp req (promotionRequest req) with ⟨d, st₁⟩
            rw [hdec] at hdecided
            dsimp only
            split_ifs
            · exact hrefused hdecided
            · have hsettled := settle_audits st₁ "promotion" req.tenantId req.nameSpace
                (some req.mutation.writeId) d
              have happend := Audits.of_sameCount hdecided (hsettled.trans
                (appendMutation_audits _ req.mutation req.tenantId req.nameSpace))
              split
              · next hout => exact congrArg Prod.snd hout ▸ happend
              · next hout => exact congrArg Prod.snd hout ▸ happend

lemma handleRetrievalRead_audits (st : ServerState ω η) (req : RetrievalRequest)
    (principal : AuthPrincipal) :
    Audits (ServerEvent.auditLabels (.retrieve req principal : ServerEvent η)) st
      (st.handleRetrievalRead req principal).2 := by
  simp only [handleRetrievalRead, ServerEvent.auditLabels]
  split_ifs
  · exact .refl st
  · have hregistered : SameCount st (st.registerDecisionOutcome req.tenantId req.nameSpace
        ⟨.sanitize, "adapter_unavailable"⟩) := ⟨rfl, rfl⟩
    exact .of_sameCount hregistered (persistAuditEvidence_audits _ _ _ _ _ _)

variable [Arithmetic]

/-- **What a request does** to the counter and the records. -/
lemma step_audits {ev : ServerEvent η} (hev : ∀ hooks, ev ≠ .restart hooks)
    (st : ServerState ω η) : Audits ev.auditLabels st (st.step cp ev) := by
  cases ev with
  | push req principal => exact processPush_audits cp st req principal
  | pull req principal readTier => exact processPull_audits cp st req principal readTier
  | promote req principal => exact processPromote_audits cp st req principal
  | retrieve req principal => exact handleRetrievalRead_audits st req principal
  | restart hooks => exact absurd rfl (hev hooks)

/-! ## Runs -/

/-- The log has no record with a label of the event and a number that the counter has still to
reach. -/
def CountsOn (st : ServerState ω η) (ev : ServerEvent η) : Prop :=
  ∀ e ∈ ownRecords st.oplog, ∀ label ∈ ev.auditLabels, ∀ n,
    e.mutation.writeId = auditId label n → n ≤ st.auditCounter

/-- The server's own records carry different write ids. -/
def DistinctIds (w : ω) : Prop :=
  (ownRecords w).Pairwise fun a b => a.mutation.writeId ≠ b.mutation.writeId

/-- One event keeps the write ids apart where the counter has passed those of its labels. -/
lemma step_distinctIds {ev : ServerEvent η} (h : DistinctIds st.oplog) (hcounts : st.CountsOn ev) :
    DistinctIds (st.step cp ev).oplog := by
  by_cases hev : ∃ hooks, ev = .restart hooks
  · obtain ⟨hooks, rfl⟩ := hev
    rw [step, withControlPlane_oplog]
    exact h
  · obtain ⟨added, hadded, hnew⟩ :=
      (step_audits cp (fun hooks heq => hev ⟨hooks, heq⟩) st).newRecords
    rw [DistinctIds, hadded]
    refine List.pairwise_append.mpr ⟨h, hnew.distinct, fun a ha b hb heq => ?_⟩
    obtain ⟨label, hlabel, n, hid, hlt, -⟩ := hnew.numbered b hb
    have hle := hcounts a ha label hlabel n (heq.trans hid)
    omega

/-- **Audit records have write ids of their own** after every run, with restarts, of a server on an
empty log in which every event finds the counter beyond the numbers that the log has with its
labels. -/
theorem audit_ids_distinct {w : ω} (hempty : toEntries w = []) (hooks : η) (tick : ℕ)
    {events : List (ServerEvent η)}
    (hcounts : ∀ pre ev post, events = pre ++ ev :: post →
      ((withControlPlane w hooks tick).run cp pre).CountsOn ev) :
    DistinctIds ((withControlPlane w hooks tick).run cp events).oplog := by
  induction events using List.reverseRecOn with
  | nil =>
    rw [run, List.foldl_nil, withControlPlane_oplog, DistinctIds, ownRecords, hempty]
    exact .nil
  | append_singleton events ev ih =>
    have hprev := ih fun pre ev' post hsplit =>
      hcounts pre ev' (post ++ [ev]) (by rw [hsplit]; simp)
    rw [run, List.foldl_append]
    exact step_distinctIds cp hprev (hcounts events ev [] rfl)

/-- Without restarts that is always so. -/
theorem countsOn_of_requests {w : ω} (hempty : toEntries w = []) (hooks : η) (tick : ℕ)
    {events : List (ServerEvent η)} (hevents : ∀ ev ∈ events, ∀ hooks, ev ≠ .restart hooks)
    (ev : ServerEvent η) : ((withControlPlane w hooks tick).run cp events).CountsOn ev := by
  have hrun : ∀ events : List (ServerEvent η), (∀ ev ∈ events, ∀ hooks, ev ≠ .restart hooks) →
      ∀ st : ServerState ω η, Audits (events.flatMap ServerEvent.auditLabels) st
        (st.run cp events) := by
    intro events
    induction events with
    | nil => exact fun _ st => .refl st
    | cons ev rest ih =>
      intro hevents st
      obtain ⟨hev, hrest⟩ := List.forall_mem_cons.mp hevents
      rw [List.flatMap_cons]
      exact ((step_audits cp hev st).mono (List.subset_append_left _ _)).trans
        ((ih hrest (st.step cp ev)).mono (List.subset_append_right _ _))
  obtain ⟨added, hadded, hnew⟩ := (hrun events hevents (withControlPlane w hooks tick)).newRecords
  have hstart : ownRecords (withControlPlane w hooks tick : ServerState ω η).oplog = [] := by
    rw [withControlPlane_oplog, ownRecords, hempty, List.filter_nil]
  intro e he label _ n hid
  rw [hadded, hstart, List.nil_append] at he
  obtain ⟨label', -, n', hid', -, hle⟩ := hnew.numbered e he
  rwa [(auditId_inj.mp (hid.symm.trans hid')).2]

end
end ServerState

section
attribute [local instance] Formatting.sample Surroundings.sample Arithmetic.sample

/-- A push under another node's name, which is refused and recorded as such. -/
def sampleRefusedPush : ServerEvent Unit := .push (samplePush []) ⟨"other", "tenant"⟩

/-- The same push for another namespace. -/
def sampleRefusedElsewhere : ServerEvent Unit :=
  .push ⟨"node", "tenant", "n", [], 0⟩ ⟨"other", "tenant"⟩

/-- The push, and after a restart the one for the other namespace. -/
def sampleRestarted : List (ServerEvent Unit) :=
  [sampleRefusedPush, .restart (), sampleRefusedElsewhere]

/-- Both records have number one, under labels of their own. -/
theorem ServerState.audit_ids_distinct_sample :
    ServerState.DistinctIds (sampleServer.run ControlPlane.default sampleRestarted).oplog := by
  apply ServerState.audit_ids_distinct ControlPlane.default MemLog.toEntries_new () 0
  rintro (_ | ⟨p₁, _ | ⟨p₂, _ | ⟨p₃, pre⟩⟩⟩) ev post hsplit e he label hlabel n hid
  · cases he
  · -- a restart records nothing
    obtain ⟨-, hrest⟩ := List.cons.inj hsplit
    obtain ⟨rfl, -⟩ := List.cons.inj hrest
    cases hlabel
  · -- the log has the first record, whose label names another namespace
    obtain ⟨rfl, hrest⟩ := List.cons.inj hsplit
    obtain ⟨rfl, hlast⟩ := List.cons.inj hrest
    obtain ⟨rfl, -⟩ := List.cons.inj hlast
    have hids : (ServerState.ownRecords (sampleServer.run ControlPlane.default
        [sampleRefusedPush, .restart ()]).oplog).map (fun e => e.mutation.writeId) =
          [auditId (auditLabel "write" "tenant" "c" none) 1] := by decide +kernel
    have hone : e.mutation.writeId = auditId (auditLabel "write" "tenant" "c" none) 1 := by
      apply List.mem_singleton.mp
      rw [← hids]
      exact List.mem_map_of_mem he
    obtain rfl : label = auditLabel "write" "tenant" "n" none := List.mem_singleton.mp hlabel
    have hlabels := (auditId_inj.mp (hone.symm.trans hid)).1
    exact absurd hlabels (by decide)
  · have hlength := congrArg List.length hsplit
    simp [sampleRestarted] at hlength

/-- **Numbers start over.** With a restart in between, both records have one write id. -/
theorem audit_id_repeated :
    ((ServerState.ownRecords (sampleServer.run ControlPlane.default
        [sampleRefusedPush, .restart (), sampleRefusedPush]).oplog).map
      fun e => e.mutation.writeId) =
        ["governance-audit:tenant:c:write:none:1", "governance-audit:tenant:c:write:none:1"] := by
  decide +kernel

end
end Rango
