import Mathlib.Data.List.Forall2
import Mathlib.Data.List.ReduceOption
import Mathlib.Data.Set.List
import Rango.Server.ContainmentTheorems

/-!
# The audit trail

Every decision of a push, a pull or a promotion goes through `persist_audit_evidence`, which reads
the clock once and appends an entry when the record is valid. `Reports` follows the decisions of a
program and what their records append, and `audit_complete_iff` says when a response lists no
decision without an entry of its own.
-/

namespace Rango

open Interleaving

/-! ## Audit records -/

lemma bytesDebug_ne_empty (bytes : List UInt8) : DocumentId.bytesDebug bytes ≠ "" := by
  simp [DocumentId.bytesDebug]

namespace ServerState

/-- An audit record is valid when it names a tenant and a namespace and the clock does not go back
between its two readings. -/
theorem auditMutation_valid_iff [Formatting] {stage tenantId nameSpace : String}
    {writeId : Option String} {d : GovernanceDecision} {eventNum : ℕ} {t : AuditClock} :
    (auditMutation stage tenantId nameSpace writeId d eventNum t).validateMetadata = .ok () ↔
      tenantId ≠ "" ∧ nameSpace ≠ "" ∧ t.createdAt ≤ t.updatedAt := by
  have hlineage : (DocumentId.newUuidV7 t.uuid).toString ≠ "" := by
    by_cases huuid : t.uuid.length = 16
    · simp [DocumentId.toString, DocumentId.newUuidV7, huuid, DocumentId.uuidDisplay]
    · simpa [DocumentId.toString, DocumentId.newUuidV7, huuid] using bytesDebug_ne_empty t.uuid
  have hfixed : auditType ≠ "" ∧ "server.runtime" ≠ "" ∧ "governance" ≠ "" ∧
      F64.one.inUnit = true := by decide
  obtain ⟨htype, hsource, hactor, htrust⟩ := hfixed
  rw [Mutation.validateMetadata, MutationMetadata.validate_eq_ok_iff]
  constructor
  · rintro ⟨hnamespace, htenant, -, -, -, -, -, -, hclock⟩
    exact ⟨htenant, hnamespace, hclock⟩
  · rintro ⟨htenant, hnamespace, hclock⟩
    exact ⟨hnamespace, htenant, htype, hsource, hactor, hlineage, le_rfl, htrust, hclock⟩

/-- The reading of the clock gives a valid record for the scope. -/
def ValidAudit [Surroundings] (scope : String × String) (n : ℕ) : Prop :=
  scope.1 ≠ "" ∧ scope.2 ≠ "" ∧
    (Surroundings.auditClock n).createdAt ≤ (Surroundings.auditClock n).updatedAt

instance [Surroundings] (scope : String × String) : DecidablePred (ValidAudit scope) := fun _ =>
  inferInstanceAs (Decidable (_ ∧ _))

/-- The entry is the server's own record of a decision for the scope. -/
structure Evidences (scope : String × String) (d : GovernanceDecision) (e : OplogEntry) :
    Prop where
  origin : e.origin = .localWrite
  collection : e.mutation.collection = auditCollection
  decision : (e.mutation.patch.bind fun patch => patch.getStr "decision") =
    some (ControlPlane.decisionLabel d)
  reason : (e.mutation.patch.bind fun patch => patch.getStr "reason") = some d.reason
  tenantId : (e.mutation.patch.bind fun patch => patch.getStr "tenant_id") = some scope.1
  nameSpace : (e.mutation.patch.bind fun patch => patch.getStr "namespace") = some scope.2

/-- What `persist_audit_evidence` appends is such a record. -/
lemma auditEntry_evidences [Formatting] (stage tenantId nameSpace : String)
    (writeId : Option String) (d : GovernanceDecision) (eventNum : ℕ) (t : AuditClock) (seq : ℕ) :
    Evidences (tenantId, nameSpace) d
      ((Atomic.auditEntry stage tenantId nameSpace writeId d eventNum t).withSeq seq) :=
  ⟨rfl, rfl, rfl, rfl, rfl, rfl⟩

/-! ## Records of decisions -/

/-- The readings of the clock, the decisions and the entries of a stretch of a request: one
reading and one decision for each record, and an entry for each record that is valid. Other
entries are not the server's own. -/
def Recorded [Surroundings] (scope : String × String) (ticks : List ℕ)
    (ds : List GovernanceDecision) (added : List OplogEntry) : Prop :=
  ∃ evidence : List (Option OplogEntry),
    List.Forall₂ (fun n o => o.isSome = true ↔ ValidAudit scope n) ticks evidence ∧
    List.Forall₂ (fun d o => ∀ e ∈ o, Evidences scope d e) ds evidence ∧
    added.filter (fun e => e.origin = .localWrite) = evidence.reduceOption

/-- Every decision has an entry of its own among the entries that the log has grown by. -/
def AuditedIn {ω η : Type} [LogOplog ω] (scope : String × String) (ds : List GovernanceDecision)
    (st st' : ServerState ω η) : Prop :=
  ∃ added es, toEntries st'.oplog = toEntries st.oplog ++ added ∧ es.Subperm added ∧
    List.Forall₂ (Evidences scope) ds es

namespace Recorded

variable [Surroundings] {scope : String × String} {ticks ticks' : List ℕ}
  {ds ds' : List GovernanceDecision} {added added' : List OplogEntry}

lemma nil : Recorded scope [] [] [] := ⟨[], .nil, .nil, rfl⟩

lemma append (h : Recorded scope ticks ds added) (h' : Recorded scope ticks' ds' added') :
    Recorded scope (ticks ++ ticks') (ds ++ ds') (added ++ added') := by
  obtain ⟨evidence, hticks, hds, hadded⟩ := h
  obtain ⟨evidence', hticks', hds', hadded'⟩ := h'
  refine ⟨evidence ++ evidence', List.rel_append hticks hticks', List.rel_append hds hds', ?_⟩
  rw [List.filter_append, hadded, hadded', List.reduceOption_append]

/-- An entry that is not the server's own. -/
lemma foreign {e : OplogEntry} (he : e.origin ≠ .localWrite) : Recorded scope [] [] [e] :=
  ⟨[], .nil, .nil, by simp [he]⟩

/-- A valid record. -/
lemma kept {n : ℕ} {d : GovernanceDecision} {e : OplogEntry} (hn : ValidAudit scope n)
    (he : Evidences scope d e) : Recorded scope [n] [d] [e] :=
  ⟨[some e], .cons (by simpa using hn) .nil, .cons (by simpa using he) .nil, by
    simp [he.origin, List.reduceOption]⟩

/-- A record that is not valid. -/
lemma lost {n : ℕ} {d : GovernanceDecision} (hn : ¬ ValidAudit scope n) :
    Recorded scope [n] [d] [] :=
  ⟨[none], .cons (by simpa using hn) .nil, .cons (by simp) .nil, rfl⟩

omit [Surroundings] in
lemma origin_of_evidences {es : List OplogEntry} (h : List.Forall₂ (Evidences scope) ds es) :
    ∀ e ∈ es, e.origin = .localWrite := by
  induction h with
  | nil => simp
  | cons hhead _ ih => exact List.forall_mem_cons.mpr ⟨hhead.origin, ih⟩

/-- All readings are valid when each of the records is there. -/
lemma forall_valid_iff {evidence : List (Option OplogEntry)}
    (h : List.Forall₂ (fun n o => o.isSome = true ↔ ValidAudit scope n) ticks evidence) :
    (∀ n ∈ ticks, ValidAudit scope n) ↔ ∀ o ∈ evidence, o.isSome = true := by
  induction h with
  | nil => simp
  | cons hhead _ ih => rw [List.forall_mem_cons, List.forall_mem_cons, hhead, ih]

/-- **Records.** Every decision has an entry of its own exactly when every record is valid. -/
theorem audited_iff (h : Recorded scope ticks ds added) :
    (∃ es, es.Subperm added ∧ List.Forall₂ (Evidences scope) ds es) ↔
      ∀ n ∈ ticks, ValidAudit scope n := by
  obtain ⟨evidence, hticks, hds, hadded⟩ := h
  rw [forall_valid_iff hticks]
  constructor
  · rintro ⟨es, hsub, hes⟩
    -- the entries are the server's own, of which there is at most one for each record
    have hown : es.filter (fun e => e.origin = .localWrite) = es := by
      rw [List.filter_eq_self]
      exact fun e he => decide_eq_true (origin_of_evidences hes e he)
    have hlength := (hsub.filter fun e => e.origin = .localWrite).length_le
    rw [hown, hadded, ← hes.length_eq, hds.length_eq] at hlength
    exact List.reduceOption_length_eq_iff.mp
      (le_antisymm (List.reduceOption_length_le evidence) hlength)
  · intro hall
    obtain ⟨es, rfl⟩ : evidence ∈ Set.range (List.map some) := by
      rw [Set.range_list_map]
      exact fun o ho => (Option.isSome_iff_exists.mp (hall o ho)).imp fun e he => he.symm
    refine ⟨es, ?_, ?_⟩
    · have hes : (es.map some).reduceOption = es := by
        simp [List.reduceOption, List.filterMap_map]
      rw [← hes, ← hadded]
      exact List.filter_sublist.subperm
    · rw [List.forall₂_map_right_iff] at hds
      exact hds.imp fun d e he => he e rfl

end Recorded

/-! ## Programs -/

section
variable {ω η : Type} [Formatting] [Surroundings] [LogOplog ω]

/-- The entry of a client's mutation. -/
def remoteEntry (st : ServerState ω η) (m : Mutation) : OplogEntry where
  seq := 0
  timestamp := Surroundings.now st.tick
  mutation := m
  origin := .remote
  applied := false
  snapshotAnchor := none

/-- A step that appends an entry appends it. -/
def AppendSucceeds (o : RequestOp) (st : ServerState ω η) : Prop :=
  match o with
  | .server (.appendAudit e) => ∃ seq w, Oplog.append e st.oplog = (.ok seq, w)
  | .server (.appendRemote m) => ∃ seq w, Oplog.append (st.remoteEntry m) st.oplog = (.ok seq, w)
  | _ => True

/-- The readings of the audit clock among the steps. -/
def auditTicks (xs : List (RequestOp × ServerState ω η)) : List ℕ :=
  xs.filterMap fun x =>
    match x.1 with
    | .server .countAudit => some x.2.tick
    | _ => none

omit [Formatting] [Surroundings] [LogOplog ω] in
lemma mem_auditTicks {xs : List (RequestOp × ServerState ω η)} {n : ℕ} :
    n ∈ auditTicks xs ↔ ∃ x ∈ xs, x.1 = .server .countAudit ∧ x.2.tick = n := by
  rw [auditTicks, List.mem_filterMap]
  refine exists_congr fun x => and_congr_right fun _ => ?_
  obtain ⟨o, st⟩ := x
  constructor
  · intro h
    dsimp only at h
    split at h
    · exact ⟨rfl, Option.some.inj h⟩
    · cases h
  · rintro ⟨rfl, rfl⟩
    rfl

omit [Formatting] [Surroundings] [LogOplog ω] in
lemma auditTicks_append (xs ys : List (RequestOp × ServerState ω η)) :
    auditTicks (xs ++ ys) = auditTicks xs ++ auditTicks ys :=
  List.filterMap_append

/-- Run alone on a log that takes its entries, a program makes decisions and records them. How it
ends and which decisions it made is as `post` says. -/
def Reports (ω : Type) [LogOplog ω] {η : Type} (cp : ControlPlane η) (scope : String × String)
    {α : Type} (post : α → List GovernanceDecision → Prop) (p : RequestProg α) : Prop :=
  ∀ st : ServerState ω η, (∀ x ∈ p.trace (performRequest cp) st, AppendSucceeds x.1 x.2) →
    ∃ ds added, Recorded scope (auditTicks (p.trace (performRequest cp) st)) ds added ∧
      toEntries (p.run (performRequest cp) st).2.oplog = toEntries st.oplog ++ added ∧
      post (p.run (performRequest cp) st).1 ds

namespace Reports

variable {cp : ControlPlane η} {scope : String × String} {α β : Type}
  {post : α → List GovernanceDecision → Prop}

lemma done {a : α} (h : post a []) : Reports ω cp scope post (.done a) :=
  fun _ _ => ⟨[], [], .nil, (List.append_nil _).symm, h⟩

/-- The decisions of a program come before those of what follows it. -/
lemma bind {mid : α → List GovernanceDecision → Prop}
    {post : β → List GovernanceDecision → Prop} {p : RequestProg α} {f : α → RequestProg β}
    (hp : Reports ω cp scope mid p)
    (hf : ∀ a ds, mid a ds → Reports ω cp scope (fun b ds' => post b (ds ++ ds')) (f a)) :
    Reports ω cp scope post (p.bind f) := by
  intro st hst
  rw [Prog.trace_bind] at hst ⊢
  obtain ⟨hfirst, hsecond⟩ := List.forall_mem_append.mp hst
  obtain ⟨ds, added, hrecorded, hentries, hmid⟩ := hp st hfirst
  obtain ⟨ds', added', hrecorded', hentries', hpost⟩ := hf _ ds hmid _ hsecond
  refine ⟨ds ++ ds', added ++ added', ?_, ?_, ?_⟩
  · rw [auditTicks_append]
    exact hrecorded.append hrecorded'
  · rw [Prog.run_bind, hentries', hentries, List.append_assoc]
  · rw [Prog.run_bind]
    exact hpost

/-- A step that neither makes a record nor appends. -/
lemma call_quiet {o : RequestOp} {next : o.Res → RequestProg α}
    (hticks : ∀ st : ServerState ω η, auditTicks [(o, st)] = [])
    (hentries : ∀ st : ServerState ω η, (st.performRequest cp o).2.oplog = st.oplog)
    (h : ∀ r, Reports ω cp scope post (next r)) : Reports ω cp scope post (.call o next) := by
  intro st hst
  rw [Prog.trace_call] at hst ⊢
  obtain ⟨ds, added, hrecorded, hgrown, hpost⟩ := h _ _ (List.forall_mem_cons.mp hst).2
  refine ⟨ds, added, ?_, ?_, hpost⟩
  · rw [← List.singleton_append, auditTicks_append, hticks]
    exact hrecorded
  · rw [Prog.run_call, hgrown, hentries]

/-- The append of a client's mutation. -/
lemma call_appendRemote {m : Mutation} {next : Except RangoError ℕ → RequestProg α}
    (h : ∀ seq, Reports ω cp scope post (next (.ok seq))) :
    Reports ω cp scope post (.call (.server (.appendRemote m)) next) := by
  intro st hst
  obtain ⟨seq, w, happend⟩ := hst _ List.mem_cons_self
  have hperform : st.performRequest cp (.server (.appendRemote m)) =
      (.ok seq, { st with oplog := w, tick := st.tick + 1 }) := by
    rw [remoteEntry] at happend
    simp only [performRequest, perform, happend]
  rw [Prog.trace_call, hperform] at hst ⊢
  obtain ⟨ds, added, hrecorded, hgrown, hpost⟩ := h seq _ (List.forall_mem_cons.mp hst).2
  rw [Prog.run_call, hperform]
  obtain ⟨e, he, hentries⟩ : ∃ e, e.origin ≠ .localWrite ∧
      toEntries w = toEntries st.oplog ++ [e] := by
    refine ⟨_, ?_, LogOplog.append_ok _ _ _ _ happend⟩
    show OplogOrigin.remote ≠ .localWrite
    decide
  refine ⟨ds, e :: added, (Recorded.foreign he).append hrecorded, ?_, hpost⟩
  rw [hgrown, hentries, List.append_assoc]
  rfl

lemma imp {post' : α → List GovernanceDecision → Prop} {p : RequestProg α}
    (h : Reports ω cp scope post p) (himp : ∀ a ds, post a ds → post' a ds) :
    Reports ω cp scope post' p := by
  intro st hst
  obtain ⟨ds, added, hrecorded, hentries, hpost⟩ := h st hst
  exact ⟨ds, added, hrecorded, hentries, himp _ _ hpost⟩

end Reports

/-! ## Records and appends -/

variable {cp : ControlPlane η} {tenantId nameSpace : String}

/-- A record reports its decision. -/
lemma persistAuditEvidence_reports (stage : String) (writeId : Option String)
    (d : GovernanceDecision) :
    Reports ω cp (tenantId, nameSpace) (fun _ ds => ds = [d])
      (Atomic.lift (Atomic.persistAuditEvidence stage tenantId nameSpace writeId d)) := by
  intro st hst
  simp only [Atomic.persistAuditEvidence, Atomic.ask, Prog.bind_eq, Prog.request_bind, Atomic.lift,
    Prog.embed, Prog.trace_call, Prog.run_call] at hst ⊢
  simp only [performRequest, perform] at hst ⊢
  cases hvalid : (ServerState.auditMutation stage tenantId nameSpace writeId d
      (st.auditCounter + 1) (Surroundings.auditClock st.tick)).validateMetadata with
  | error err =>
    refine ⟨[d], [], .lost fun hn => ?_, (List.append_nil _).symm, rfl⟩
    rw [auditMutation_valid_iff.mpr hn] at hvalid
    cases hvalid
  | ok =>
    simp only [hvalid, Prog.embed, Prog.trace_call, Prog.run_call] at hst ⊢
    obtain ⟨seq, w, happend⟩ := (List.forall_mem_cons.mp (List.forall_mem_cons.mp hst).2).1
    simp only [performRequest, perform, happend]
    refine ⟨[d], [_], .kept (auditMutation_valid_iff.mp hvalid)
      (auditEntry_evidences stage tenantId nameSpace writeId d (st.auditCounter + 1)
        (Surroundings.auditClock st.tick) seq), ?_, rfl⟩
    exact LogOplog.append_ok _ _ _ _ happend

/-- Recording a decision reports it. -/
lemma settle_reports (stage : String) (writeId : Option String) (d : GovernanceDecision) :
    Reports ω cp (tenantId, nameSpace) (fun _ ds => ds = [d])
      (Atomic.lift (Atomic.settle stage tenantId nameSpace writeId d)) := by
  rw [Atomic.settle, Prog.bind_eq, Atomic.lift, Prog.embed_bind]
  refine (persistAuditEvidence_reports stage writeId d).bind fun _ ds hds => ?_
  refine .call_quiet (fun _ => rfl) (fun _ => rfl) fun _ => .done ?_
  rw [hds]
  rfl

/-- Appending a client's mutation reports no decision. -/
lemma appendMutation_reports (m : Mutation) :
    Reports ω cp (tenantId, nameSpace) (fun _ ds => ds = [])
      (Atomic.lift (Atomic.appendMutation m tenantId nameSpace)) := by
  unfold Atomic.appendMutation
  cases m.validateMetadata with
  | error err => exact .done rfl
  | ok =>
    dsimp only
    split_ifs with hscope
    · exact .done rfl
    · refine .call_quiet (fun _ => rfl) (fun _ => rfl) ?_
      rintro (_ | existingSeq)
      · refine .call_appendRemote fun seq => ?_
        show Reports ω cp (tenantId, nameSpace) (fun _ ds => ds = [])
          (Atomic.lift (Atomic.indexMutation seq m >>= fun _ =>
            (pure (.ok seq) : ServerProg (Except RangoError ℕ))))
        unfold Atomic.indexMutation
        split_ifs
        · exact .done rfl
        · exact .call_quiet (fun _ => rfl) (fun _ => rfl) fun _ =>
            .call_quiet (fun _ => rfl) (fun _ => rfl) fun _ => .done rfl
      · exact .done rfl

/-! ## Requests -/

/-- The outcome of a mutation of a push lists the decision on it. -/
abbrev ListsPushed (answer : Except RequestFault Pushed) (ds : List GovernanceDecision) : Prop :=
  ∀ pushed, answer = .ok pushed → ds = [pushed.decision]

lemma pushRefused_reports {req : PushRequest} {m : Mutation} (crossTenant : Bool)
    (d : GovernanceDecision) :
    Reports ω cp (req.tenantId, req.nameSpace) ListsPushed
      (Atomic.lift (Atomic.pushRefused req m crossTenant d)) := by
  rw [Atomic.pushRefused, Prog.bind_eq, Atomic.lift, Prog.embed_bind]
  refine (settle_reports _ _ d).bind fun _ ds hds => .done fun pushed hpushed => ?_
  rw [hds, ← Except.ok.inj hpushed]
  rfl

lemma pushDecided_reports {req : PushRequest} {m : Mutation} (d : GovernanceDecision) :
    Reports ω cp (req.tenantId, req.nameSpace) ListsPushed
      (Atomic.lift (Atomic.pushDecided req m d)) := by
  unfold Atomic.pushDecided
  split_ifs with hd
  · exact pushRefused_reports false d
  · rw [Prog.bind_eq, Atomic.lift, Prog.embed_bind]
    refine (settle_reports _ _ d).bind fun _ ds hds => ?_
    rw [Prog.bind_eq, Prog.embed_bind]
    refine (appendMutation_reports m).bind fun answer ds' hds' => ?_
    cases answer with
    | error err => exact .done fun _ h => by cases h
    | ok seq =>
      refine .done fun pushed hpushed => ?_
      rw [hds, hds', ← Except.ok.inj hpushed]
      rfl

lemma pushMutation_reports (req : PushRequest) (m : Mutation) :
    Reports ω cp (req.tenantId, req.nameSpace) ListsPushed
      (Atomic.lift (Atomic.pushMutation req m)) := by
  refine .call_quiet (fun _ => rfl) (fun _ => rfl) ?_
  rintro (_ | d)
  · dsimp only
    cases m.validateMetadata with
    | error err => exact pushRefused_reports false _
    | ok =>
      dsimp only
      split_ifs
      · exact .call_quiet (fun _ => rfl) (fun _ => rfl) fun _ => pushRefused_reports true _
      · exact .call_quiet (fun _ => rfl) (fun _ => rfl) fun _ => pushDecided_reports _
  · exact pushRefused_reports false d

lemma pushLoop_reports (req : PushRequest) (ms : List Mutation) :
    Reports ω cp (req.tenantId, req.nameSpace)
      (fun answer ds => ∀ outcomes, answer = .ok outcomes → ds = outcomes.map Pushed.decision)
      (Atomic.lift (Atomic.pushLoop req ms)) := by
  induction ms with
  | nil =>
    refine .done fun outcomes houtcomes => ?_
    rw [← Except.ok.inj houtcomes]
    rfl
  | cons m rest ih =>
    rw [Atomic.pushLoop, Prog.bind_eq, Atomic.lift, Prog.embed_bind]
    refine (pushMutation_reports req m).bind fun answer ds hds => ?_
    cases answer with
    | error fault => exact .done fun _ h => by cases h
    | ok pushed =>
      dsimp only
      rw [Prog.bind_eq, Prog.embed_bind]
      refine ih.bind fun answer ds' hds' => ?_
      cases answer with
      | error fault => exact .done fun _ h => by cases h
      | ok outcomes =>
        refine .done fun outcomes' houtcomes => ?_
        rw [hds pushed rfl, hds' outcomes rfl, ← Except.ok.inj houtcomes, List.append_nil]
        rfl

lemma pushMismatch_reports {req : PushRequest} (nonOwner crossTenant : ℕ) (reason : String) :
    Reports ω cp (req.tenantId, req.nameSpace)
      (fun answer ds => ∀ resp, answer = .ok resp → ds = resp.audit)
      (Atomic.lift (Atomic.pushMismatch req nonOwner crossTenant reason)) := by
  simp only [Atomic.pushMismatch, Prog.bind_eq, Atomic.lift, Prog.embed_bind]
  refine (settle_reports _ _ (ControlPlane.reject reason)).bind fun _ ds hds => ?_
  refine .call_quiet (fun _ => rfl) (fun _ => rfl) fun _ => .done fun resp hresp => ?_
  rw [hds, ← Except.ok.inj hresp]
  rfl

/-- **Pushes** list the decisions that they record. -/
lemma processPush_reports (req : PushRequest) (principal : AuthPrincipal) :
    Reports ω cp (req.tenantId, req.nameSpace)
      (fun answer ds => ∀ resp, answer = .ok resp → ds = resp.audit)
      (Atomic.lift (Atomic.processPush req principal)) := by
  unfold Atomic.processPush
  split_ifs
  · exact .call_quiet (fun _ => rfl) (fun _ => rfl) fun _ => pushMismatch_reports _ _ _
  · exact .call_quiet (fun _ => rfl) (fun _ => rfl) fun _ => pushMismatch_reports _ _ _
  · rw [Prog.bind_eq, Atomic.lift, Prog.embed_bind]
    refine (pushLoop_reports req req.mutations).bind fun answer ds hds => ?_
    cases answer with
    | error fault => exact .done fun _ h => by cases h
    | ok outcomes =>
      refine .call_quiet (fun _ => rfl) (fun _ => rfl) fun _ => .done fun resp hresp => ?_
      rw [hds outcomes rfl, ← Except.ok.inj hresp, List.append_nil]

lemma pullAnswered_reports {req : PullRequest} (d : GovernanceDecision)
    (mutations : List Mutation) :
    Reports ω cp (req.tenantId, req.nameSpace)
      (fun answer ds => ∀ resp, answer = .ok resp → ds = resp.audit)
      (Atomic.lift (Atomic.pullAnswered req d mutations)) := by
  rw [Atomic.pullAnswered, Prog.bind_eq, Atomic.lift, Prog.embed_bind]
  refine (settle_reports _ _ d).bind fun _ ds hds => ?_
  refine .call_quiet (fun _ => rfl) (fun _ => rfl) fun _ => .done fun resp hresp => ?_
  rw [hds, ← Except.ok.inj hresp]
  rfl

/-- **Pulls** list the decision that they record. -/
lemma processPull_reports [Arithmetic] (req : PullRequest) (principal : AuthPrincipal)
    (readTier : MemoryTier) :
    Reports ω cp (req.tenantId, req.nameSpace)
      (fun answer ds => ∀ resp, answer = .ok resp → ds = resp.audit)
      (Atomic.lift (Atomic.processPull req principal readTier)) := by
  unfold Atomic.processPull
  split_ifs
  · exact .call_quiet (fun _ => rfl) (fun _ => rfl) fun _ => pullAnswered_reports _ _
  · exact pullAnswered_reports _ _
  · cases afterCheckpoint req.sinceCheckpoint with
    | error fault => exact .done fun _ h => by cases h
    | ok first =>
      refine .call_quiet (fun _ => rfl) (fun _ => rfl) ?_
      rintro (err | entries)
      · exact .done fun _ h => by cases h
      · refine .call_quiet (fun _ => rfl) (fun _ => rfl) ?_
        rintro ⟨d, filtered⟩
        refine .call_quiet (fun _ => rfl) (fun _ => rfl) fun containment => ?_
        show Reports ω cp _ _ (Atomic.lift (Atomic.pullDecided req readTier _
          (containment.getD d) filtered))
        unfold Atomic.pullDecided
        split_ifs
        · exact pullAnswered_reports _ _
        · exact pullAnswered_reports _ _

lemma promoteRefused_reports {req : PromoteRequest} (d : GovernanceDecision) :
    Reports ω cp (req.tenantId, req.nameSpace)
      (fun answer ds => ∀ resp, answer = .ok resp → ds = resp.audit)
      (Atomic.lift (Atomic.promoteRefused req d)) := by
  rw [Atomic.promoteRefused, Prog.bind_eq, Atomic.lift, Prog.embed_bind]
  refine (settle_reports _ _ d).bind fun _ ds hds => ?_
  refine .call_quiet (fun _ => rfl) (fun _ => rfl) fun _ => .done fun resp hresp => ?_
  rw [hds, ← Except.ok.inj hresp]
  rfl

lemma promoteDecided_reports {req : PromoteRequest} (d : GovernanceDecision) :
    Reports ω cp (req.tenantId, req.nameSpace)
      (fun answer ds => ∀ resp, answer = .ok resp → ds = resp.audit)
      (Atomic.lift (Atomic.promoteDecided req d)) := by
  unfold Atomic.promoteDecided
  split_ifs
  · exact promoteRefused_reports d
  · rw [Prog.bind_eq, Atomic.lift, Prog.embed_bind]
    refine (settle_reports _ _ d).bind fun _ ds hds => ?_
    rw [Prog.bind_eq, Prog.embed_bind]
    refine (appendMutation_reports req.mutation).bind fun answer ds' hds' => ?_
    cases answer with
    | error err => exact .done fun _ h => by cases h
    | ok seq =>
      refine .call_quiet (fun _ => rfl) (fun _ => rfl) fun _ => .done fun resp hresp => ?_
      rw [hds, hds', ← Except.ok.inj hresp]
      rfl

/-- **Promotions** list the decision that they record. -/
lemma processPromote_reports (req : PromoteRequest) (principal : AuthPrincipal) :
    Reports ω cp (req.tenantId, req.nameSpace)
      (fun answer ds => ∀ resp, answer = .ok resp → ds = resp.audit)
      (Atomic.processPromote req principal) := by
  have hcross : ∀ reason, Reports ω cp (req.tenantId, req.nameSpace)
      (fun answer ds => ∀ resp, answer = .ok resp → ds = resp.audit)
      (Atomic.lift (Atomic.promoteCrossTenant req reason)) := fun reason =>
    .call_quiet (fun _ => rfl) (fun _ => rfl) fun _ => promoteRefused_reports _
  have hrefused : ∀ reason, Reports ω cp (req.tenantId, req.nameSpace)
      (fun answer ds => ∀ resp, answer = .ok resp → ds = resp.audit)
      (Atomic.lift (Atomic.promoteRefused req (ControlPlane.reject reason))) := fun _ =>
    promoteRefused_reports _
  unfold Atomic.processPromote
  cases req.mutation.validateMetadata with
  | error err =>
    dsimp only
    split_ifs
    · exact .call_quiet (fun _ => rfl) (fun _ => rfl) fun _ => hrefused _
    · exact hcross _
    · exact hrefused _
  | ok =>
    dsimp only
    split_ifs
    · exact .call_quiet (fun _ => rfl) (fun _ => rfl) fun _ => hrefused _
    · exact hcross _
    · exact hcross _
    · unfold Atomic.promoteChecked
      dsimp only
      split_ifs
      · exact promoteRefused_reports _
      · refine .call_quiet (fun _ => rfl) (fun _ => rfl) ?_
        rintro ⟨d, sanitized⟩
        exact .call_quiet (fun _ => rfl) (fun _ => rfl) fun _ => promoteDecided_reports _

end

/-! ## Completeness -/

end ServerState

/-- The decisions that a response lists. -/
def ServerReply.audit : ServerReply → Option (List GovernanceDecision)
  | .push (.ok resp) => some resp.audit
  | .pull (.ok resp) => some resp.audit
  | .promote (.ok resp) => some resp.audit
  | _ => none

namespace ServerState

section
variable {ω η : Type} [Formatting] [Surroundings] [LogOplog ω] [Arithmetic] (cp : ControlPlane η)
  {st : ServerState ω η} {ev : ServerEvent η} {scope : String × String}

/-- Requests list the decisions that they record. -/
lemma program_reports (hev : ev.Gates) (hscope : ev.scope = some scope) :
    Reports ω cp scope (fun reply ds => ∀ audit, reply.audit = some audit → ds = audit)
      ev.program := by
  cases ev with
  | push req principal =>
    obtain rfl := Option.some.inj hscope
    refine (processPush_reports req principal).bind fun answer ds hds =>
      .done fun audit haudit => ?_
    cases answer with
    | error fault => cases haudit
    | ok resp => rw [List.append_nil, hds resp rfl, ← Option.some.inj haudit]
  | pull req principal readTier =>
    obtain rfl := Option.some.inj hscope
    refine (processPull_reports req principal readTier).bind fun answer ds hds =>
      .done fun audit haudit => ?_
    cases answer with
    | error fault => cases haudit
    | ok resp => rw [List.append_nil, hds resp rfl, ← Option.some.inj haudit]
  | promote req principal =>
    obtain rfl := Option.some.inj hscope
    refine (processPromote_reports req principal).bind fun answer ds hds =>
      .done fun audit haudit => ?_
    cases answer with
    | error fault => cases haudit
    | ok resp => rw [List.append_nil, hds resp rfl, ← Option.some.inj haudit]
  | retrieve | restart => exact hev.elim

/-- **The audit trail is complete** for a response exactly when each of the request's records
names a tenant and a namespace and reads a clock that does not go back. -/
theorem audit_complete_iff (hev : ev.Gates) (hscope : ev.scope = some scope)
    (happends : ∀ x ∈ st.stepTrace cp ev, AppendSucceeds x.1 x.2) {ds : List GovernanceDecision}
    (hreply : (st.respond cp ev).audit = some ds) :
    AuditedIn scope ds st (st.step cp ev) ↔
      ∀ x ∈ st.stepTrace cp ev, x.1 = .server .countAudit → ValidAudit scope x.2.tick := by
  obtain ⟨ds', added, hrecorded, hentries, hds⟩ := program_reports cp hev hscope st happends
  rw [Atomic.run_program cp st hev.isRequest] at hentries hds
  obtain rfl := hds ds hreply
  have hticks : (∀ n ∈ auditTicks (ev.program.trace (performRequest cp) st),
      ValidAudit scope n) ↔
        ∀ x ∈ st.stepTrace cp ev, x.1 = .server .countAudit → ValidAudit scope x.2.tick := by
    constructor
    · exact fun h x hx hcount => h _ (mem_auditTicks.mpr ⟨x, hx, hcount, rfl⟩)
    · rintro h n hn
      obtain ⟨x, hx, hcount, rfl⟩ := mem_auditTicks.mp hn
      exact h x hx hcount
  rw [← hticks, ← hrecorded.audited_iff]
  constructor
  · rintro ⟨added', es, hentries', haudited⟩
    rw [hentries] at hentries'
    rw [List.append_cancel_left hentries']
    exact ⟨es, haudited⟩
  · rintro ⟨es, haudited⟩
    exact ⟨added, es, hentries, haudited⟩

end
end ServerState

/-! ## A request without a scope -/

section
attribute [local instance] Formatting.sample Surroundings.sample Arithmetic.sample

/-- A push of a node with the token of another, to a tenant and a namespace. -/
def sampleStrangerPush (tenantId nameSpace : String) : ServerEvent Unit :=
  .push ⟨"node", tenantId, nameSpace, [], 0⟩ ⟨"other", "tenant"⟩

/-- Its rejection is recorded. -/
theorem ServerState.audit_complete_scoped :
    AuditedIn ("tenant", "c") [ControlPlane.reject "node_mismatch"] sampleServer
      (sampleServer.step .default (sampleStrangerPush "tenant" "c")) := by
  have hgates : (sampleStrangerPush "tenant" "c").Gates := trivial
  have happends : ∀ x ∈ sampleServer.stepTrace .default (sampleStrangerPush "tenant" "c"),
      ServerState.AppendSucceeds x.1 x.2 := by
    refine List.forall_mem_cons.mpr ⟨trivial, List.forall_mem_cons.mpr ⟨trivial,
      List.forall_mem_cons.mpr ⟨⟨1, _, rfl⟩, List.forall_mem_cons.mpr ⟨trivial, ?_⟩⟩⟩⟩
    exact List.forall_mem_cons.mpr ⟨trivial, List.forall_mem_nil _⟩
  refine (ServerState.audit_complete_iff .default hgates rfl happends rfl).mpr fun x _ _ => ?_
  exact ⟨by decide, by decide, le_rfl⟩

/-- Without a tenant and a namespace it is not, although the response lists it. -/
theorem unscoped_rejection_unaudited :
    (sampleServer.respond .default (sampleStrangerPush "" "")).audit =
        some [ControlPlane.reject "node_mismatch"] ∧
      (∀ x ∈ sampleServer.stepTrace .default (sampleStrangerPush "" ""),
        ServerState.AppendSucceeds x.1 x.2) ∧
      ¬ ServerState.AuditedIn ("", "") [ControlPlane.reject "node_mismatch"] sampleServer
        (sampleServer.step .default (sampleStrangerPush "" "")) := by
  refine ⟨rfl, ?_, ?_⟩
  · refine List.forall_mem_cons.mpr ⟨trivial, List.forall_mem_cons.mpr ⟨trivial, ?_⟩⟩
    exact List.forall_mem_cons.mpr ⟨trivial, List.forall_mem_cons.mpr ⟨trivial,
      List.forall_mem_nil _⟩⟩
  · rintro ⟨added, es, hentries, hsub, hes⟩
    have hlog : toEntries (sampleServer.step .default (sampleStrangerPush "" "")).oplog = [] := by
      decide +kernel
    rw [hlog] at hentries
    have hadded : added = [] := (List.append_eq_nil_iff.mp hentries.symm).2
    have hlength := hsub.length_le
    rw [← hes.length_eq, hadded] at hlength
    exact absurd hlength (by decide)

end

/-! ## What a step appends -/

/-- The client's mutation that a step appends. -/
def RequestOp.remote : RequestOp → Option Mutation
  | .server (.appendRemote m) => some m
  | _ => none

lemma RequestOp.remote_eq_some {o : RequestOp} {m : Mutation} :
    o.remote = some m ↔ o = .server (.appendRemote m) := by
  constructor
  · intro h
    unfold remote at h
    split at h
    · rw [Option.some.inj h]
    · cases h
  · rintro rfl
    rfl

namespace ServerState

section
variable {ω η : Type} [Formatting] [Surroundings] [LogOplog ω] (cp : ControlPlane η)
  {st : ServerState ω η}

/-- A step leaves the log or appends one entry: a record, or a client's mutation. -/
lemma performRequest_entries (o : RequestOp) (st : ServerState ω η) :
    toEntries (st.performRequest cp o).2.oplog = toEntries st.oplog ∨
      AppendSucceeds o st ∧ ∃ e seq, (o = .server (.appendAudit e) ∨
        ∃ m, o = .server (.appendRemote m) ∧ e = st.remoteEntry m) ∧
          toEntries (st.performRequest cp o).2.oplog = toEntries st.oplog ++ [e.withSeq seq] := by
  have happend : ∀ e, (toEntries (Oplog.append e st.oplog).2 = toEntries st.oplog ∨
      ∃ seq w, Oplog.append e st.oplog = (.ok seq, w) ∧
        toEntries (Oplog.append e st.oplog).2 = toEntries st.oplog ++ [e.withSeq seq]) := by
    intro e
    rcases happend : Oplog.append e st.oplog with ⟨err | seq, w⟩
    · exact Or.inl (LogOplog.append_error _ _ _ _ happend)
    · exact Or.inr ⟨seq, w, rfl, LogOplog.append_ok _ _ _ _ happend⟩
  cases o with
  | promotionPath request payload => exact Or.inl rfl
  | server o =>
    cases o with
    | appendAudit e =>
      refine (happend e).imp_right ?_
      rintro ⟨seq, w, hok, hentries⟩
      exact ⟨⟨seq, w, hok⟩, e, seq, Or.inl rfl, hentries⟩
    | appendRemote m =>
      refine (happend (st.remoteEntry m)).imp_right ?_
      rintro ⟨seq, w, hok, hentries⟩
      exact ⟨⟨seq, w, hok⟩, _, seq, Or.inr ⟨m, rfl, rfl⟩, hentries⟩
    | _ => exact Or.inl rfl

/-- Entries stay. -/
lemma mem_entries_performRequest {o : RequestOp} {e : OplogEntry}
    (h : e ∈ toEntries st.oplog) : e ∈ toEntries (st.performRequest cp o).2.oplog := by
  rcases performRequest_entries cp o st with hsame | ⟨-, e', seq, -, hentries⟩
  · rwa [hsame]
  · rw [hentries]
    exact List.mem_append_left _ h

end
end ServerState
end Rango
