import Mathlib.Data.List.DropRight
import Rango.Server.AuditIdTheorems
import Rango.Server.AuditTheorems
import Rango.Server.Conduct

/-!
# Concurrent requests of every kind

What `conductProtocol` means for any number of requests that interleave step by step. A pull is
handed out what was submitted under its own tenant (`concurrent_isolation`), no mutation is stored
without a check of the gate and a decision of the control plane before it (`stored_cleared`), and
the write ids of audit records differ (`concurrent_audit_ids_distinct`).
-/

namespace Rango

open Interleaving

namespace ServerState

section
variable {ω η ι : Type} [Formatting] [Surroundings] [Oplog ω]

/-- The gate answers as `conductProtocol` expects. -/
lemma performRequest_expected (cp : ControlPlane η) (o : RequestOp) (st : ServerState ω η) :
    Conduct.Expected ⟨o, (st.performRequest cp o).1⟩ := by
  cases o with
  | promotionPath request payload => trivial
  | server o =>
    cases o with
    | containmentGate tenantId nameSpace =>
      show Conduct.Expected ⟨.server (.containmentGate tenantId nameSpace),
        (st.containmentGate tenantId nameSpace).1⟩
      cases hgate : (st.containmentGate tenantId nameSpace).1 with
      | none => trivial
      | some d => exact containmentGate_reject hgate
    | _ => trivial

end

/-! ## Tenant isolation -/

section
variable {ω η ι : Type} [LogOplog ω] [Formatting] [Surroundings] [Arithmetic]

/-- The event came before the requests, or is one of them. -/
def Received (events : List (ServerEvent η)) (requests : ι → ServerEvent η)
    (ev : ServerEvent η) : Prop :=
  ev ∈ events ∨ ∃ j, requests j = ev

/-- The mutation is that of an audit record, or was submitted in one of the events or requests
under a principal of the tenant it names. -/
def Attributed (events : List (ServerEvent η)) (requests : ι → ServerEvent η) (m : Mutation) :
    Prop :=
  m.metadata.type = auditType ∨
    ∃ ev, Received events requests ev ∧ ev.Submits m.metadata.tenantId m

/-- Every entry of the log and every entry that a request has read is attributed. -/
structure AllAttributed (events : List (ServerEvent η)) (requests : ι → ServerEvent η)
    (st : ServerState ω η) (φs : ι → Conduct) : Prop where
  log : ∀ e ∈ toEntries st.oplog, Attributed events requests e.mutation
  pages : ∀ i, ∀ e ∈ (φs i).page, Attributed events requests e.mutation

variable [DecidableEq ι] {cp : ControlPlane η} {events : List (ServerEvent η)}
  {requests : ι → ServerEvent η} {st : ServerState ω η} {φs : ι → Conduct} {i : ι} {o : RequestOp}

omit [Arithmetic] [DecidableEq ι] in
/-- What a request has read after a step, it had read before or is in the log. -/
lemma nextPage_mem {φ : Conduct} {ev : ServerEvent η} (hallowed : φ.allowed ev o) {e : OplogEntry}
    (he : e ∈ Conduct.nextPage φ.page ⟨o, (st.performRequest cp o).1⟩) :
    e ∈ φ.page ∨ e ∈ toEntries st.oplog := by
  cases o with
  | promotionPath request payload => exact .inl he
  | server o =>
    cases o with
    | readSince first limit =>
      have hread : e ∈ Conduct.nextPage φ.page
        ⟨.server (.readSince first limit), Oplog.readSince first limit st.oplog⟩ := he
      obtain ⟨-, rfl⟩ := hallowed
      cases hout : Oplog.readSince first pageLimit st.oplog with
      | error err =>
        rw [hout] at hread
        exact .inl hread
      | ok entries =>
        rw [hout, LogOplog.readSince_ok _ _ _ _ (by decide) hout] at hread
        exact .inr (List.mem_of_mem_filter (List.mem_of_mem_take hread))
    | _ => exact .inl he

omit [Arithmetic] in
/-- **Steps** store what is attributed, and read no more than that. -/
lemma AllAttributed.step (h : AllAttributed events requests st φs)
    (hallowed : (φs i).allowed (requests i) o) :
    AllAttributed events requests (st.performRequest cp o).2
      (Function.update φs i ((φs i).next ⟨o, (st.performRequest cp o).1⟩)) := by
  refine ⟨fun e he => ?_, fun j e he => ?_⟩
  · rcases performRequest_entries cp o st with hsame | ⟨-, e', seq, horigin, hentries⟩
    · rw [hsame] at he
      exact h.log e he
    · rw [hentries] at he
      rcases List.mem_append.mp he with he | he
      · exact h.log e he
      · obtain rfl := List.mem_singleton.mp he
        rcases horigin with rfl | ⟨m, rfl, rfl⟩
        · -- the record that the request has drawn a number for
          obtain ⟨-, eventNum, stage, tenantId, nameSpace, writeId, d, t, -, rfl⟩ := hallowed
          exact .inl rfl
        · obtain ⟨-, -, hsubmits, -⟩ := hallowed
          exact .inr ⟨_, .inr ⟨i, rfl⟩, hsubmits⟩
  · by_cases hji : j = i
    · subst hji
      rw [Function.update_self] at he
      rcases nextPage_mem hallowed he with he | he
      · exact h.pages j e he
      · exact h.log e he
    · rw [Function.update_of_ne hji] at he
      exact h.pages j e he

/-- **Tenant isolation, concurrently.** A server starts on an empty log and answers requests one
after another, with restarts, then any number of requests of every kind, whose steps interleave in
any order, with any hooks. What any of these is handed out names the tenant of its principal and
the namespace that it asked for, and was submitted by a push or a promotion under a principal of
the same tenant. -/
theorem concurrent_isolation (cp : ControlPlane η) {oplog : ω} (hempty : toEntries oplog = [])
    (hooks : η) (tick : ℕ) (events : List (ServerEvent η)) (requests : ι → ServerEvent η)
    (schedule : List ι) {i : ι} {reply : ServerReply}
    (hreply : (((requestPool ((withControlPlane oplog hooks tick).run cp events) requests).exec
      (performRequest cp) schedule).threads i).result = some reply) {m : Mutation}
    (hm : m ∈ reply.mutations) :
    ∃ req principal readTier, requests i = .pull req principal readTier ∧
      m.metadata.tenantId = principal.tenantId ∧ m.metadata.nameSpace = req.nameSpace ∧
      ∃ ev, Received events requests ev ∧ ∃ submitted, ev.Submits principal.tenantId submitted ∧
        m = annotateMutationForReadTier submitted readTier := by
  have hstart : AllAttributed events requests ((withControlPlane oplog hooks tick).run cp events)
      fun _ : ι => Conduct.fresh := by
    refine ⟨fun e he => ?_, fun _ e he => absurd he List.not_mem_nil⟩
    rcases run_provenance cp hempty hooks tick events he with haudit | ⟨ev, hev, hsubmits⟩
    · exact .inl haudit
    · exact .inr ⟨ev, .inl hev, hsubmits⟩
  obtain ⟨φs, htracked, hinv⟩ := Pool.exec_invariant (performRequest cp)
    (performRequest_expected cp) (fun _ _ _ _ hinv hallowed => AllAttributed.step hinv hallowed)
    (requestPool_tracked _ requests) hstart schedule
  obtain ⟨-, hhands⟩ := htracked.result hreply
  obtain ⟨req, principal, readTier, hev, htenant, e, he, hscope, rfl⟩ := hhands m hm
  obtain ⟨hscopeTenant, hnamespace, htype⟩ := scope_of_inPullScope hscope
  have howner : e.mutation.metadata.tenantId = principal.tenantId := hscopeTenant.trans htenant.symm
  rw [annotateMutationForReadTier_metadata]
  refine ⟨req, principal, readTier, hev, howner, hnamespace, ?_⟩
  rcases hinv.pages i e he with haudit | ⟨ev, hreceived, hsubmits⟩
  · exact absurd haudit htype
  · exact ⟨ev, hreceived, e.mutation, howner ▸ hsubmits, rfl⟩

end

/-! ## Clearance -/

section
variable {ω η ι : Type} [Formatting] [Surroundings] [Arithmetic] [DecidableEq ι]

omit [Formatting] [Surroundings] [Arithmetic] in
/-- The steps since the last append of a client's mutation. -/
def sinceAppend (steps : List RequestStep) : List RequestStep :=
  steps.rtakeWhile fun s => ¬ s.1.Appends

omit [Formatting] [Surroundings] [Arithmetic] in
lemma recent_foldl (steps : List RequestStep) :
    (steps.foldl Conduct.next .fresh).recent = sinceAppend steps := by
  have hnext : ∀ (φ : Conduct) s,
      (φ.next s).recent = if s.1.Appends then [] else φ.recent ++ [s] := fun _ _ => rfl
  induction steps using List.reverseRecOn with
  | nil => rfl
  | append_singleton steps s ih =>
    rw [List.foldl_append, List.foldl_cons, List.foldl_nil, hnext, ih, sinceAppend, sinceAppend,
      List.rtakeWhile_concat]
    by_cases happends : s.1.Appends
    · simp [happends]
    · simp [happends]

/-- **No way around the gate and the control plane.** Whatever requests interleave on a server in
whatever state, a request that appends a client's mutation has submitted it under a principal of
its tenant and checked its metadata. Since the request last appended a mutation, its last check of
the containment gate was one for the scope of the mutation and passed, the control plane let the
mutation pass, and the decision was recorded. -/
theorem stored_cleared [Oplog ω] (cp : ControlPlane η) (st : ServerState ω η)
    (requests : ι → ServerEvent η) (schedule : List ι) {before after : List (ι × RequestStep)}
    {i : ι} {m : Mutation} {r : Except RangoError ℕ}
    (hsplit : (requestPool st requests).history (performRequest cp) schedule =
      before ++ (i, ⟨.server (.appendRemote m), r⟩) :: after) :
    (requests i).Submits m.metadata.tenantId m ∧ m.validateMetadata = .ok () ∧
      Cleared (requests i) m (sinceAppend (Pool.own i before)) := by
  obtain ⟨-, hvalid, hsubmits, hcleared⟩ := Pool.history_allowed (performRequest cp)
    (performRequest_expected cp) (requestPool_tracked st requests) hsplit
  rw [recent_foldl] at hcleared
  exact ⟨hsubmits, hvalid, hcleared⟩

end

/-! ## Audit records come first -/

section
variable {ω η ι : Type} [LogOplog ω] [Formatting] [Surroundings] [Arithmetic] [DecidableEq ι]

/-- The record is one of a decision by which the mutation was stored. -/
structure Admitted (m : Mutation) (e : OplogEntry) : Prop where
  evidences : ∃ d, ControlPlane.isReject d = false ∧ Evidences (scopeOf m) d e
  writeId : (e.mutation.patch.bind fun patch => patch.getStr "write_id") = some m.writeId

omit [LogOplog ω] [Surroundings] [Arithmetic] [DecidableEq ι] in
lemma admitted_auditEntry {m : Mutation} {d : GovernanceDecision}
    (hd : ControlPlane.isReject d = false) (stage : String) (eventNum : ℕ) (t : AuditClock)
    (seq : ℕ) : Admitted m ((Atomic.auditEntry stage m.metadata.tenantId m.metadata.nameSpace
      (some m.writeId) d eventNum t).withSeq seq) where
  evidences := ⟨d, hd, auditEntry_evidences ..⟩
  writeId := rfl

/-- Before every client's entry stands the record of a decision by which it was stored, and what a
request has recorded is in the log. -/
structure AuditedFirst (st : ServerState ω η) (φs : ι → Conduct) : Prop where
  first : ∀ x ∈ toEntries st.oplog, x.origin = .remote →
    ∃ e ∈ toEntries st.oplog, e.seq < x.seq ∧ Admitted x.mutation e
  recorded : ∀ i e r, ⟨.server (.appendAudit e), r⟩ ∈ (φs i).recent →
    ∃ seq, e.withSeq seq ∈ toEntries st.oplog
  forward : ∀ i eventNum t, ⟨.server .countAudit, (eventNum, t)⟩ ∈ (φs i).recent →
    t.createdAt ≤ t.updatedAt

/-- The log does not take the audit record that the step appends. -/
def losesAudit : RequestStep → Bool
  | ⟨.server (.appendAudit _), .error _⟩ => true
  | _ => false

variable {cp : ControlPlane η} {requests : ι → ServerEvent η} {st : ServerState ω η}
  {φs : ι → Conduct} {i : ι} {o : RequestOp}

omit [LogOplog ω] [Formatting] [Surroundings] [Arithmetic] in
/-- A step that some request has taken since it last appended is one from before, or is the
present one. -/
lemma mem_recent_update {s s' : RequestStep} {j : ι}
    (h : s' ∈ (Function.update φs i ((φs i).next s) j).recent) :
    s' ∈ (φs j).recent ∨ s' = s := by
  by_cases hji : j = i
  · subst hji
    rw [Function.update_self] at h
    have hrecent : s' ∈ if s.1.Appends then [] else (φs j).recent ++ [s] := h
    split_ifs at hrecent with happends
    · exact absurd hrecent List.not_mem_nil
    · exact (List.mem_append.mp hrecent).imp_right List.mem_singleton.mp
  · rw [Function.update_of_ne hji] at h
    exact .inl h

omit [Surroundings] [Arithmetic] [DecidableEq ι] in
/-- The record of a cleared mutation is in the log. -/
lemma AuditedFirst.admitted (h : AuditedFirst st φs) {m : Mutation}
    (hvalid : m.validateMetadata = .ok ()) (hcleared : Cleared (requests i) m (φs i).recent) :
    ∃ e ∈ toEntries st.oplog, Admitted m e := by
  obtain ⟨stage, d, hreject, eventNum, t, hcount, happend⟩ := hcleared.recorded
  obtain ⟨hnamespace, htenant, -⟩ := (MutationMetadata.validate_eq_ok_iff m.metadata).mp hvalid
  obtain ⟨r, hr⟩ := happend (auditMutation_valid_iff.mpr
    ⟨htenant, hnamespace, h.forward i eventNum t hcount⟩)
  obtain ⟨seq, hmem⟩ := h.recorded i _ r hr
  exact ⟨_, hmem, admitted_auditEntry hreject stage eventNum t seq⟩

omit [Arithmetic] in
lemma AuditedFirst.step
    (hclock : ∀ n, (Surroundings.auditClock n).createdAt ≤ (Surroundings.auditClock n).updatedAt)
    (h : AuditedFirst st φs) (hallowed : (φs i).allowed (requests i) o)
    (happends : losesAudit ⟨o, (st.performRequest cp o).1⟩ = false) :
    AuditedFirst (st.performRequest cp o).2
      (Function.update φs i ((φs i).next ⟨o, (st.performRequest cp o).1⟩)) := by
  have hmono : ∀ e ∈ toEntries st.oplog, e ∈ toEntries (st.performRequest cp o).2.oplog :=
    fun e he => mem_entries_performRequest cp he
  refine ⟨fun x hx hremote => ?_, fun j e r hmem => ?_, fun j eventNum t hmem => ?_⟩
  · rcases performRequest_entries cp o st with hsame | ⟨-, e', seq, horigin, hentries⟩
    · rw [hsame] at hx ⊢
      exact h.first x hx hremote
    · rw [hentries] at hx
      rcases List.mem_append.mp hx with hx | hx
      · obtain ⟨e, he, hlt, hadmitted⟩ := h.first x hx hremote
        exact ⟨e, hmono e he, hlt, hadmitted⟩
      · obtain rfl := List.mem_singleton.mp hx
        rcases horigin with rfl | ⟨m, rfl, rfl⟩
        · -- the server's own records are not remote
          obtain ⟨-, eventNum, stage, tenantId, nameSpace, writeId, d, t, -, rfl⟩ := hallowed
          cases hremote
        · obtain ⟨-, hvalid, -, hcleared⟩ := hallowed
          obtain ⟨e, he, hadmitted⟩ := h.admitted hvalid hcleared
          have hinc :=
            LogOplog.increasing (st.performRequest cp (.server (.appendRemote m))).2.oplog
          rw [hentries] at hinc
          have hlt := (List.pairwise_append.mp hinc).2.2 e he _ List.mem_cons_self
          exact ⟨e, hmono e he, hlt, hadmitted⟩
  · rcases mem_recent_update hmem with hmem | hstep
    · obtain ⟨seq, he⟩ := h.recorded j e r hmem
      exact ⟨seq, hmono _ he⟩
    · obtain ⟨rfl, -⟩ := Sigma.mk.inj hstep
      have hout : losesAudit ⟨.server (.appendAudit e), (Oplog.append e st.oplog).1⟩ = false :=
        happends
      show ∃ seq, e.withSeq seq ∈ toEntries (Oplog.append e st.oplog).2
      rcases append_entries e st.oplog with ⟨seq, -, hentries⟩ | ⟨err, herr, -⟩
      · rw [hentries]
        exact ⟨seq, List.mem_append_right _ List.mem_cons_self⟩
      · rw [herr] at hout
        cases hout
  · rcases mem_recent_update hmem with hmem | hstep
    · exact h.forward j eventNum t hmem
    · obtain ⟨rfl, hanswer⟩ := Sigma.mk.inj hstep
      have hreading : (eventNum, t) = (st.auditCounter + 1, Surroundings.auditClock st.tick) :=
        eq_of_heq hanswer
      rw [(Prod.mk.inj hreading).2]
      exact hclock st.tick

/-- **Audited before stored.** A server starts on an empty log and answers any number of requests
of every kind, whose steps interleave in any order. As long as the log takes its audit records and
the clock does not go back between its two readings for one of them, every entry of a client comes
after a record of a decision for its scope and write id that is no rejection. -/
theorem audited_before_stored (cp : ControlPlane η) {oplog : ω} (hempty : toEntries oplog = [])
    (hclock : ∀ n, (Surroundings.auditClock n).createdAt ≤ (Surroundings.auditClock n).updatedAt)
    (hooks : η) (tick : ℕ) (requests : ι → ServerEvent η) {schedule : List ι}
    (happends : ∀ x ∈ (requestPool (withControlPlane oplog hooks tick) requests).history
      (performRequest cp) schedule, losesAudit x.2 = false) :
    let log := toEntries ((requestPool (withControlPlane oplog hooks tick) requests).exec
      (performRequest cp) schedule).shared.oplog
    ∀ x ∈ log, x.origin = .remote →
      ∃ e ∈ log, e.seq < x.seq ∧ e.origin = .localWrite ∧ Admitted x.mutation e := by
  have hstart : AuditedFirst (withControlPlane oplog hooks tick : ServerState ω η)
      fun _ : ι => Conduct.fresh := by
    refine ⟨fun x hx => ?_, fun _ _ _ hmem => absurd hmem List.not_mem_nil,
      fun _ _ _ hmem => absurd hmem List.not_mem_nil⟩
    rw [withControlPlane_oplog, hempty] at hx
    exact absurd hx List.not_mem_nil
  obtain ⟨φs, -, hinv⟩ := Pool.exec_invariant_of (H := fun _ s => losesAudit s = false)
    (performRequest cp) (performRequest_expected cp)
    (fun _ _ _ _ hinv hallowed hH => AuditedFirst.step hclock hinv hallowed hH)
    (requestPool_tracked _ requests) hstart happends
  intro log x hx hremote
  obtain ⟨e, he, hlt, hadmitted⟩ := hinv.first x hx hremote
  obtain ⟨d, -, hevidences⟩ := hadmitted.evidences
  exact ⟨e, he, hlt, hevidences.origin, hadmitted⟩

end

/-! ## Write ids of audit records -/

section
variable {ω η ι : Type} [LogOplog ω] [Formatting] [Surroundings] [Arithmetic] [DecidableEq ι]

/-- The entry's write id has the number. -/
def CarriesNumber (n : ℕ) (e : OplogEntry) : Prop := ∃ label, e.mutation.writeId = auditId label n

/-- The records of the log and those that are about to be written have numbers of their own, which
the counter has passed. -/
structure Counted (st : ServerState ω η) (φs : ι → Conduct) : Prop where
  distinct : DistinctIds st.oplog
  numbered : ∀ e ∈ ownRecords st.oplog, ∃ n ≤ st.auditCounter, CarriesNumber n e
  drawn_le : ∀ i n, (φs i).drawn = some n → n ≤ st.auditCounter
  apart : ∀ i j n, (φs i).drawn = some n → (φs j).drawn = some n → i = j
  unused : ∀ i n, (φs i).drawn = some n → ∀ e ∈ ownRecords st.oplog, ¬ CarriesNumber n e

omit [LogOplog ω] [Formatting] [Surroundings] [Arithmetic] [DecidableEq ι] in
lemma carriesNumber_inj {e : OplogEntry} {n n' : ℕ} (h : CarriesNumber n e)
    (h' : CarriesNumber n' e) : n = n' := by
  obtain ⟨label, hid⟩ := h
  obtain ⟨label', hid'⟩ := h'
  exact (auditId_inj.mp (hid.symm.trans hid')).2

variable {cp : ControlPlane η} {requests : ι → ServerEvent η} {st st' : ServerState ω η}
  {φs : ι → Conduct} {i : ι} {o : RequestOp}

omit [Formatting] [Surroundings] [Arithmetic] in
/-- A request draws the next number. -/
lemma Counted.draw (h : Counted st φs) (hrecords : ownRecords st'.oplog = ownRecords st.oplog)
    (hcounter : st'.auditCounter = st.auditCounter + 1) {ψ : Conduct}
    (hψ : ψ.drawn = some (st.auditCounter + 1)) : Counted st' (Function.update φs i ψ) := by
  have hdrawn : ∀ j n, (Function.update φs i ψ j).drawn = some n →
      j = i ∧ n = st.auditCounter + 1 ∨ j ≠ i ∧ (φs j).drawn = some n := by
    intro j n hj
    by_cases hji : j = i
    · rw [hji, Function.update_self, hψ] at hj
      exact .inl ⟨hji, (Option.some.inj hj).symm⟩
    · rw [Function.update_of_ne hji] at hj
      exact .inr ⟨hji, hj⟩
  refine ⟨?_, fun e he => ?_, fun j n hj => ?_, fun j k n hj hk => ?_, fun j n hj e he => ?_⟩
  · rw [DistinctIds, hrecords]
    exact h.distinct
  · rw [hrecords] at he
    obtain ⟨n, hn, hnumbered⟩ := h.numbered e he
    exact ⟨n, by omega, hnumbered⟩
  · rcases hdrawn j n hj with ⟨-, rfl⟩ | ⟨-, hj⟩
    · exact hcounter.ge
    · have hle := h.drawn_le j n hj
      omega
  · rcases hdrawn j n hj with ⟨rfl, rfl⟩ | ⟨-, hj⟩
    · rcases hdrawn k _ hk with ⟨rfl, -⟩ | ⟨-, hk⟩
      · rfl
      · have hle := h.drawn_le k _ hk
        omega
    · rcases hdrawn k n hk with ⟨-, rfl⟩ | ⟨-, hk⟩
      · have hle := h.drawn_le j _ hj
        omega
      · exact h.apart j k n hj hk
  · rw [hrecords] at he
    rcases hdrawn j n hj with ⟨-, rfl⟩ | ⟨-, hj⟩
    · intro hnumbered
      obtain ⟨n, hn, hnumbered'⟩ := h.numbered e he
      have hsame := carriesNumber_inj hnumbered hnumbered'
      omega
    · exact h.unused j n hj e he

omit [Formatting] [Surroundings] [Arithmetic] in
/-- A request writes the record that it has drawn a number for, or fails to. -/
lemma Counted.write (h : Counted st φs) {n : ℕ} (hi : (φs i).drawn = some n) {es : List OplogEntry}
    (hes : es.Pairwise fun a b => a.mutation.writeId ≠ b.mutation.writeId)
    (hnumbered : ∀ e ∈ es, CarriesNumber n e)
    (hrecords : ownRecords st'.oplog = ownRecords st.oplog ++ es)
    (hcounter : st'.auditCounter = st.auditCounter) {ψ : Conduct} (hψ : ψ.drawn = none) :
    Counted st' (Function.update φs i ψ) := by
  have hdrawn : ∀ j k, (Function.update φs i ψ j).drawn = some k →
      (φs j).drawn = some k ∧ k ≠ n := by
    intro j k hj
    by_cases hji : j = i
    · rw [hji, Function.update_self, hψ] at hj
      cases hj
    · rw [Function.update_of_ne hji] at hj
      refine ⟨hj, ?_⟩
      rintro rfl
      exact hji (h.apart j i k hj hi)
  refine ⟨?_, fun e he => ?_, fun j k hj => ?_, fun j j' k hj hj' => ?_, fun j k hj e he => ?_⟩
  · rw [DistinctIds, hrecords]
    refine List.pairwise_append.mpr ⟨h.distinct, hes, fun a ha b hb heq => ?_⟩
    -- no record of the log has the number yet
    obtain ⟨label, hid⟩ := hnumbered b hb
    exact h.unused i n hi a ha ⟨label, heq.trans hid⟩
  · rw [hrecords] at he
    rcases List.mem_append.mp he with he | he
    · obtain ⟨k, hk, hnumbered'⟩ := h.numbered e he
      exact ⟨k, by omega, hnumbered'⟩
    · have hle := h.drawn_le i n hi
      exact ⟨n, by omega, hnumbered e he⟩
  · have hle := h.drawn_le j k (hdrawn j k hj).1
    omega
  · exact h.apart j j' k (hdrawn j k hj).1 (hdrawn j' k hj').1
  · rw [hrecords] at he
    rcases List.mem_append.mp he with he | he
    · exact h.unused j k (hdrawn j k hj).1 e he
    · exact fun hnumbered' => (hdrawn j k hj).2 (carriesNumber_inj hnumbered' (hnumbered e he))

omit [Formatting] [Surroundings] [Arithmetic] in
/-- Any other step. -/
lemma Counted.skip (h : Counted st φs) (hrecords : ownRecords st'.oplog = ownRecords st.oplog)
    (hcounter : st'.auditCounter = st.auditCounter) {ψ : Conduct}
    (hψ : ψ.drawn = (φs i).drawn) : Counted st' (Function.update φs i ψ) := by
  have hdrawn : ∀ j, (Function.update φs i ψ j).drawn = (φs j).drawn := by
    intro j
    by_cases hji : j = i
    · rw [hji, Function.update_self, hψ]
    · rw [Function.update_of_ne hji]
  refine ⟨?_, fun e he => ?_, fun j n hj => ?_, fun j k n hj hk => ?_, fun j n hj e he => ?_⟩
  · rw [DistinctIds, hrecords]
    exact h.distinct
  · rw [hrecords] at he
    rw [hcounter]
    exact h.numbered e he
  · rw [hcounter]
    exact h.drawn_le j n ((hdrawn j).symm.trans hj)
  · exact h.apart j k n ((hdrawn j).symm.trans hj) ((hdrawn k).symm.trans hk)
  · rw [hrecords] at he
    exact h.unused j n ((hdrawn j).symm.trans hj) e he

omit [Arithmetic] in
/-- **Steps** keep the numbers apart. -/
lemma Counted.step (h : Counted st φs) (hallowed : (φs i).allowed (requests i) o) :
    Counted (st.performRequest cp o).2
      (Function.update φs i ((φs i).next ⟨o, (st.performRequest cp o).1⟩)) := by
  cases o with
  | promotionPath request payload =>
    refine h.skip ?_ ?_ ?_
    all_goals rfl
  | server o =>
    cases o with
    | countAudit =>
      refine h.draw ?_ ?_ ?_
      all_goals rfl
    | appendAudit e =>
      obtain ⟨-, eventNum, stage, tenantId, nameSpace, writeId, d, t, hdrawn, rfl⟩ := hallowed
      let e := Atomic.auditEntry stage tenantId nameSpace writeId d eventNum t
      obtain ⟨es, hes, hnumbered, hrecords⟩ : ∃ es : List OplogEntry,
          es.Pairwise (fun a b => a.mutation.writeId ≠ b.mutation.writeId) ∧
          (∀ x ∈ es, CarriesNumber eventNum x) ∧
          ownRecords (Oplog.append e st.oplog).2 = ownRecords st.oplog ++ es := by
        cases hout : Oplog.append e st.oplog with
        | mk r w =>
          cases r with
          | ok seq =>
            refine ⟨[e.withSeq seq], List.pairwise_singleton _ _, fun x hx => ?_,
              ownRecords_append hout⟩
            rw [List.mem_singleton.mp hx]
            exact ⟨_, rfl⟩
          | error err =>
            refine ⟨[], .nil, by simp, ?_⟩
            rw [List.append_nil]
            exact congrArg (List.filter _) (LogOplog.append_error _ _ _ _ hout)
      refine h.write hdrawn hes hnumbered hrecords ?_ ?_
      all_goals rfl
    | appendRemote m =>
      have hrecords : ownRecords (Oplog.append (st.remoteEntry m) st.oplog).2 =
          ownRecords st.oplog := by
        cases hout : Oplog.append (st.remoteEntry m) st.oplog with
        | mk r w =>
          cases r with
          | ok seq =>
            rw [ownRecords_append hout]
            exact List.append_nil _
          | error err => exact congrArg (List.filter _) (LogOplog.append_error _ _ _ _ hout)
      refine h.skip hrecords ?_ ?_
      all_goals rfl
    | _ =>
      refine h.skip ?_ ?_ ?_
      all_goals rfl

/-- **Audit records have write ids of their own, concurrently.** A server starts on an empty log
and answers any number of requests of every kind, whose steps interleave in any order. -/
theorem concurrent_audit_ids_distinct (cp : ControlPlane η) {oplog : ω}
    (hempty : toEntries oplog = []) (hooks : η) (tick : ℕ) (requests : ι → ServerEvent η)
    (schedule : List ι) :
    DistinctIds ((requestPool (withControlPlane oplog hooks tick) requests).exec
      (performRequest cp) schedule).shared.oplog := by
  have hrecords : ownRecords (withControlPlane oplog hooks tick : ServerState ω η).oplog = [] := by
    rw [withControlPlane_oplog, ownRecords, hempty, List.filter_nil]
  have hstart : Counted (withControlPlane oplog hooks tick : ServerState ω η)
      fun _ : ι => Conduct.fresh := by
    refine ⟨?_, fun e he => ?_, fun _ _ hi => ?_, fun _ _ _ hi => ?_, fun _ _ hi => ?_⟩
    · rw [DistinctIds, hrecords]
      exact .nil
    · rw [hrecords] at he
      exact absurd he List.not_mem_nil
    · cases hi
    · cases hi
    · cases hi
  obtain ⟨φs, -, hinv⟩ := Pool.exec_invariant (performRequest cp) (performRequest_expected cp)
    (fun _ _ _ _ hinv hallowed => Counted.step hinv hallowed) (requestPool_tracked _ requests)
    hstart schedule
  exact hinv.distinct

end
end ServerState

section
attribute [local instance] Formatting.sample Surroundings.sample Arithmetic.sample

/-- A push and a pull of the same namespace. -/
def sampleRequests : Bool → ServerEvent Unit
  | false => .push (samplePush [sampleClientInsert]) samplePrincipal
  | true => .pull samplePull samplePrincipal .state

/-- The pull comes while the push indexes what it has stored. -/
def sampleInterleaving : List Bool :=
  List.replicate 7 false ++ List.replicate 3 true ++ [false] ++ List.replicate 6 true

/-- The server after it. -/
def sampleInterleaved : Pool (ServerState MemLog Unit) RequestOp.Res fun _ : Bool => ServerReply :=
  (requestPool sampleServer sampleRequests).exec (ServerState.performRequest .default)
    sampleInterleaving

/-- The pull is handed out what was pushed under its tenant. -/
theorem ServerState.concurrent_isolation_sample :
    (sampleInterleaved.threads true).result =
      some (.pull (.ok ⟨[sampleClientInsert], 2, [⟨.allow, "retrieval_allowed"⟩]⟩)) ∧
    ∃ req principal readTier, sampleRequests true = .pull req principal readTier ∧
      sampleClientInsert.metadata.tenantId = principal.tenantId ∧
      sampleClientInsert.metadata.nameSpace = req.nameSpace ∧
      ∃ ev, ServerState.Received [] sampleRequests ev ∧
        ∃ submitted, ev.Submits principal.tenantId submitted ∧
          sampleClientInsert = annotateMutationForReadTier submitted readTier := by
  have hreply : (sampleInterleaved.threads true).result =
      some (.pull (.ok ⟨[sampleClientInsert], 2, [⟨.allow, "retrieval_allowed"⟩]⟩)) := by
    decide +kernel
  exact ⟨hreply, ServerState.concurrent_isolation .default MemLog.toEntries_new () 0 []
    sampleRequests sampleInterleaving hreply List.mem_cons_self⟩

/-- The push was cleared to store its mutation. -/
theorem ServerState.stored_cleared_sample : ∃ before,
    (sampleRequests false).Submits "tenant" sampleClientInsert ∧
      sampleClientInsert.validateMetadata = .ok () ∧
      Cleared (sampleRequests false) sampleClientInsert
        (ServerState.sinceAppend (Pool.own false before)) := by
  obtain ⟨⟨j, o, r⟩, hmem, rfl, ho⟩ :
      ∃ x ∈ (requestPool sampleServer sampleRequests).history
          (ServerState.performRequest .default) sampleInterleaving,
        x.1 = false ∧ x.2.1.remote = some sampleClientInsert := by decide +kernel
  obtain rfl := RequestOp.remote_eq_some.mp ho
  obtain ⟨before, after, hsplit⟩ := List.append_of_mem hmem
  exact ⟨before, ServerState.stored_cleared .default sampleServer sampleRequests
    sampleInterleaving hsplit⟩

/-- Its entry comes after the record of the decision. -/
theorem ServerState.audited_before_stored_sample :
    ∃ x ∈ toEntries sampleInterleaved.shared.oplog, x.origin = .remote ∧
      ∃ e ∈ toEntries sampleInterleaved.shared.oplog, e.seq < x.seq ∧ e.origin = .localWrite ∧
        ServerState.Admitted x.mutation e := by
  obtain ⟨x, hx, hremote⟩ : ∃ x ∈ toEntries sampleInterleaved.shared.oplog,
      x.origin = .remote := by decide +kernel
  have happends : ∀ x ∈ (requestPool sampleServer sampleRequests).history
      (ServerState.performRequest .default) sampleInterleaving,
        ServerState.losesAudit x.2 = false := by decide +kernel
  exact ⟨x, hx, hremote, ServerState.audited_before_stored .default MemLog.toEntries_new
    (fun _ => le_rfl) () 0 sampleRequests happends x hx hremote⟩

/-- The records of the push and of the pull have different write ids. -/
theorem ServerState.concurrent_audit_ids_distinct_sample :
    ServerState.DistinctIds sampleInterleaved.shared.oplog :=
  ServerState.concurrent_audit_ids_distinct .default MemLog.toEntries_new () 0 sampleRequests
    sampleInterleaving

end
end Rango
